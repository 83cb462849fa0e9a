import ElmReach.CommandLine.Arguments
import ElmReach.Path.Basic
import ElmReach.Text.WordChar

/-!
# Commands

What the command line asks for: the report of unused modules, the outline of a source file, the
version, or help.
-/

namespace ElmReach.CommandLine

/-- What the command for unused modules is asked. -/
structure UnusedRequest where
  /-- The project root. -/
  path : Path
  entryFile : Option String
  exposed : List String
  sourceDirs : List String
  excludeDirs : List String
  excludeFiles : List String
  /-- The name of the output format. -/
  format : String
  /-- A settings file. -/
  config : Option Path
  verbose : Bool
  quiet : Bool
  deriving DecidableEq, Repr

/-- What the outline command is asked. -/
structure OutlineRequest where
  file : Path
  /-- The name of the output format. -/
  format : String
  /-- Whether comments are shown. -/
  comments : Bool
  deriving DecidableEq, Repr

/-- What the command line asks for. -/
inductive Command where
  | version
  | help
  | unused (request : UnusedRequest)
  | outline (request : OutlineRequest)
  deriving DecidableEq, Repr

/-- The option for help, which every command has. -/
def helpOption : OptionSpec := ⟨"--help", none, false⟩

/-- The option for the output format. -/
def formatOption : OptionSpec := ⟨"--format", some 'f', true⟩

/-- The options in front of a command. -/
def globalOptions : List OptionSpec := [⟨"--version", none, false⟩, helpOption]

/-- The options of the command for unused modules. -/
def unusedOptions : List OptionSpec :=
  [⟨"--entry-file", some 'e', true⟩, ⟨"--exposed-module", some 'm', true⟩,
    ⟨"--source-dir", some 's', true⟩, ⟨"--exclude-dir", none, true⟩,
    ⟨"--exclude-file", none, true⟩, formatOption, ⟨"--config", some 'c', true⟩,
    ⟨"--verbose", some 'v', false⟩, ⟨"--quiet", some 'q', false⟩, helpOption]

/-- The options of the outline command. -/
def outlineOptions : List OptionSpec :=
  [formatOption, ⟨"--comments", none, false⟩, helpOption]

/-- Read the path of a directory or a file that a command asks for; no path has a null character. -/
def path? (text : String) : Option Path :=
  if '\x00' ∈ text.toList then none else some (.ofString text)

/-- The project root among operands: the working directory, unless one operand names another. -/
def root? : List String → Option Path
  | [] => some (.ofString ".")
  | [text] => path? text
  | _ => none

/-- The settings file among arguments, if one is asked for. There is no answer if its text is no
path. -/
def config? (found : List Argument) : Option (Option Path) :=
  (value? found "--config").mapM path?

namespace Command

/-- Read the arguments of the command for unused modules. -/
def unused? (arguments : List String) : Option Command :=
  match read? unusedOptions false arguments with
  | none => none
  | some found =>
    if isGiven found "--help" then some .help
    else
      match root? (operands found), config? found with
      | some path, some config =>
        some
          (.unused
            { path
              entryFile := value? found "--entry-file"
              exposed := values found "--exposed-module"
              sourceDirs := values found "--source-dir"
              excludeDirs := values found "--exclude-dir"
              excludeFiles := values found "--exclude-file"
              format := (value? found "--format").getD "rich"
              config
              verbose := isGiven found "--verbose"
              quiet := isGiven found "--quiet" })
      | _, _ => none

/-- Read the arguments of the outline command. -/
def outline? (arguments : List String) : Option Command :=
  match read? outlineOptions false arguments with
  | none => none
  | some found =>
    if isGiven found "--help" then some .help
    else
      match operands found with
      | [text] =>
        (path? text).map fun file =>
          .outline
            { file
              format := (value? found "--format").getD "rich"
              comments := isGiven found "--comments" }
      | _ => none

/-- The paths that a command looks at, apart from what lies below them. -/
def paths : Command → List Path
  | .version => []
  | .help => []
  | .unused request =>
    let entry := request.entryFile.map fun file => request.path.append (.ofString file)
    request.path :: (entry.toList ++ request.config.toList)
  | .outline request => [request.file]

/-- What the first option in front of a command asks for by itself. -/
def global? (found : List Argument) : Option Command :=
  found.findSome? fun
    | .option "--version" _ => some .version
    | .option "--help" _ => some .help
    | _ => none

/-- Whether a word that is no command is taken for an option: it starts with something other than a
letter or a numeral. -/
def looksLikeOption (word : String) : Bool :=
  word.toList.head?.any fun c => !(Text.isLetter c || Text.isNumeral c)

/-- Read a command line; there is no answer if it is used wrongly. Operands whose first one is taken
for an option are read once more as what stands in front of a command. -/
def read? (arguments : List String) : Option Command :=
  match CommandLine.read? globalOptions true arguments with
  | none => none
  | some found =>
    (global? found).or
      (match operands found with
      | "unused" :: rest => unused? rest
      | "outline" :: rest => outline? rest
      | word :: rest =>
        if looksLikeOption word then
          (CommandLine.read? globalOptions true (word :: rest)).bind global?
        else none
      | [] => none)

end Command

end ElmReach.CommandLine
