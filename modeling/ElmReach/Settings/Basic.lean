import ElmReach.Encoding.Registry
import ElmReach.Log

/-!
# Settings

How the tool scans and reports. Settings are made from a table of values that may come from
anywhere, so making them checks names, types and values, in that order.
-/

namespace ElmReach

/-- How much is logged. -/
inductive Verbosity where
  | quiet
  | normal
  | verbose
  deriving DecidableEq, Repr

namespace Verbosity

/-- The name of a verbosity. -/
def name : Verbosity → String
  | .quiet => "quiet"
  | .normal => "normal"
  | .verbose => "verbose"

/-- The verbosity of a name. -/
def named? : String → Option Verbosity
  | "quiet" => some .quiet
  | "normal" => some .normal
  | "verbose" => some .verbose
  | _ => none

/-- The lowest level that is logged. -/
def level : Verbosity → Level
  | .quiet => Level.error
  | .normal => Level.warning
  | .verbose => Level.debug

/-- The lowest level that is logged under a name; an unknown name is as good as `normal`. -/
def levelNamed (name : String) : Level :=
  ((named? name).map level).getD Level.warning

end Verbosity

/-- The settings of the tool. -/
structure Settings where
  /-- What the names of source files end with. -/
  extension : String
  /-- The name of the encoding of source files. -/
  encodingName : String
  /-- The encoding of source files. -/
  encoding : Encoding
  /-- Whether links to directories are entered. -/
  followLinks : Bool
  verbosity : Verbosity
  /-- The file that receives a copy of the log. -/
  logFile : Option String

namespace Settings

/-- The settings that hold where nothing else is said. -/
def default : Settings where
  extension := ".elm"
  encodingName := "utf-8"
  encoding := .utf8
  followLinks := false
  verbosity := .normal
  logFile := none

/-- The names of the settings. -/
def fieldNames : List String :=
  ["source_extension", "encoding", "follow_symlinks", "verbosity", "log_file"]

/-- Why a setting cannot have a value. A value that cannot be written is a fault. -/
def refused (name : String) (value : Value) (reason : String) : Failure :=
  if value.isWritable then .error (.invalidField name value reason) else .fault .longInteger

/-- The value of a setting that must be a text. -/
def textField (fields : Assoc Value) (name fallback : String) : Except Failure String :=
  match fields.get? name with
  | none => .ok fallback
  | some (.text value) => .ok value
  | some value => .error (refused name value "must be a string")

/-- The value of the switch for following links. -/
def linksField (fields : Assoc Value) : Except Failure Bool :=
  match fields.get? "follow_symlinks" with
  | none => .ok false
  | some (.flag value) => .ok value
  | some value => .error (refused "follow_symlinks" value "must be true or false")

/-- The name of the log file. -/
def logField (fields : Assoc Value) : Except Failure (Option String) :=
  match fields.get? "log_file" with
  | none => .ok none
  | some .absent => .ok none
  | some (.text value) => .ok (some value)
  | some value => .error (refused "log_file" value "must be a file path")

/-- Whether a text can be the extension of source files: a dot and something behind it. -/
def isExtension (text : String) : Bool :=
  match text.toList with
  | '.' :: _ :: _ => true
  | _ => false

/-- The encoding of a name. A name that the registry does not know is refused; a name that cannot be
handed to the registry, or with which the registry fails, is a fault. -/
def encodingNamed (codecs : Codecs) (name : String) : Except Failure Encoding :=
  if '\x00' ∈ name.toList then .error (.fault .nullCharacter)
  else
    match codecs.find name with
    | .known encoding => .ok encoding
    | .unknown => .error (refused "encoding" (.text name) "unknown text encoding")
    | .failing kind message => .error (.fault (.codec kind message))

/-- Make settings from fields with known names. -/
def check (codecs : Codecs) (fields : Assoc Value) : Except Failure Settings := do
  let extension ← textField fields "source_extension" default.extension
  let encodingName ← textField fields "encoding" default.encodingName
  let verbosityName ← textField fields "verbosity" default.verbosity.name
  let followLinks ← linksField fields
  let logFile ← logField fields
  if !isExtension extension then
    throw (refused "source_extension" (.text extension) "must look like '.elm'")
  match Verbosity.named? verbosityName with
  | none =>
    throw (refused "verbosity" (.text verbosityName) "must be one of quiet, normal, verbose")
  | some verbosity =>
    let encoding ← encodingNamed codecs encodingName
    return { extension, encodingName, encoding, followLinks, verbosity, logFile }

/-- Make settings from fields. The first name that no setting has is a fault. -/
def ofFields (codecs : Codecs) (fields : Assoc Value) : Except Failure Settings :=
  match fields.names.find? (· ∉ fieldNames) with
  | some name => .error (.fault (.unexpectedField name))
  | none => check codecs fields

end Settings

end ElmReach
