import ElmReach.Encoding.Basic
import ElmReach.Host
import ElmReach.Log
import ElmReach.Source.Summary
import ElmReach.Text.Blank

/-!
# Source modules

A source file stands for a module: its name, from its module statement or else from its path, and
its imports. Imports without a name are dropped.
-/

namespace ElmReach

/-- A source file as a module. -/
structure SourceModule where
  /-- The text of the file's path. -/
  path : String
  /-- Dotted name of the module. -/
  name : String
  /-- Imports in source order. -/
  imports : List ImportStatement
  deriving DecidableEq, Repr

/-- The text of a source file. -/
structure SourceText where
  /-- The path under which the file was read. -/
  path : String
  /-- The text without blanks at its ends. -/
  content : List Char
  deriving DecidableEq, Repr

namespace SourceText

/-- The text of a source file that is read from a file system. The file must exist, and it must
follow its encoding. -/
def ofFile (tree : FileTree) (here : Place) (encoding : Encoding) (path : String) :
    Except Failure SourceText :=
  let tidy := Path.tidy path
  match tree.file? here tidy with
  | .error error => .error (.fault (.file error tidy))
  | .ok none => .error (.error (.missingSource tidy))
  | .ok (some bytes) =>
    match encoding.decode bytes with
    | .error (.undecodable fault) =>
      .error (.error (.unreadableFile tidy ("Encoding error: " ++ fault.render)))
    | .error fault => .error (.fault fault)
    | .ok text => .ok { path := tidy, content := Text.trim (Encoding.uniformLines text) }

/-- Read a source file. What the log has written into the file is a part of it. -/
def read (host : Host) (encoding : Encoding) (path : String) : Traced SourceText := do
  let tree := host.treeAfter (← .past)
  .ofOutcome (ofFile tree host.here encoding path)

/-- The summary of a source text, with its log. -/
def summary (source : SourceText) : Traced Summary := do
  let found := Summary.ofContent source.content
  let shown := if source.path = "" then "<content>" else source.path
  let record (message : String) : LogRecord :=
    { level := Level.debug, logger := Logger.lexer, message }
  let extra := found.moduleStatements.drop 1
  .sayAll
    (extra.map (fun _ => record ("Ignoring extra module statement in " ++ shown)) ++
      [record
        ("Lexed " ++ shown ++ ": " ++ toString found.imports.length ++ " imports, " ++
          toString found.comments.length ++ " comments")])
  return found

end SourceText

namespace SourceModule

/-- The names of the imported modules, in source order. -/
def importNames (source : SourceModule) : List String :=
  source.imports.map ImportStatement.name

/-- The module name that a path stands for: the names below the source root, joined by dots and
without the extension of the last one. Without a source root, or outside of it, the name is the
last name of the path without its extension. -/
def nameOfPath (path : String) (sourceRoot : Option String) : Except Fault String :=
  let whole := Path.ofString path
  match sourceRoot.bind fun root => whole.partsBelow? (.ofString root) with
  | none => .ok whole.stem
  | some parts =>
    match parts.getLast? with
    | none => .error .emptyName
    | some last =>
      .ok (".".intercalate (parts.dropLast ++ [String.ofList (Path.stemOf last.toList)]))

/-- The module of a summary. -/
def ofSummary (path : String) (sourceRoot : Option String) (summary : Summary) :
    Traced SourceModule := do
  let imports := summary.imports.filter (·.name ≠ "")
  let declared := (summary.moduleStatement.map ModuleStatement.name).filter (· ≠ "")
  match declared with
  | some name => return { path, name, imports }
  | none =>
    match nameOfPath path sourceRoot with
    | .error fault => .stop fault
    | .ok name =>
      .say Level.debug Logger.sourceModule
        ("No usable module statement in " ++ path ++ ", using '" ++ name ++ "'")
      return { path, name, imports }

/-- The module of a text that is at hand. -/
def ofContent (path : String) (content : List Char) (sourceRoot : Option String) :
    Traced SourceModule := do
  let source : SourceText := { path, content := Text.trim content }
  ofSummary path sourceRoot (← source.summary)

/-- Read the module of a file. -/
def read (host : Host) (encoding : Encoding) (path : String) (sourceRoot : Option String) :
    Traced SourceModule := do
  let source ← SourceText.read host encoding path
  ofSummary path sourceRoot (← source.summary)

end SourceModule

end ElmReach
