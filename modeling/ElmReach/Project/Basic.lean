import ElmReach.Path.Common
import ElmReach.SourceModule

/-!
# Projects

A project is an application, which starts from one entry module, or a package, which exposes
modules. Both have source directories, exclusions and the list of their source files.
-/

namespace ElmReach

/-- What a project starts from. -/
inductive ProjectShape where
  | application (entry : SourceModule)
  | package (exposed : List String)
  deriving DecidableEq, Repr

/-- A project, ready to be analysed. All paths are anchored. -/
structure Project where
  /-- The project root. -/
  root : String
  /-- The source directories inside the root. -/
  sourceDirs : List String
  excludeDirs : List String
  excludeFiles : List String
  /-- The source files, in ascending order. -/
  files : List String
  shape : ProjectShape
  deriving DecidableEq, Repr

namespace Project

/-- The module names that the project starts from. -/
def roots (project : Project) : List String :=
  match project.shape with
  | .application entry => [entry.name]
  | .package exposed => exposed

/-- The name of the project's kind. -/
def kindName (project : Project) : String :=
  match project.shape with
  | .application _ => "application"
  | .package _ => "package"

/-- The first text of greatest length. -/
def longest? : List String → Option String
  | [] => none
  | first :: rest =>
    match longest? rest with
    | some other => some (if first.length < other.length then other else first)
    | none => some first

/-- The deepest of some directories that a file lies in. A path that is not anchored cannot be
compared with them. -/
def containingDir (directories : List String) (file : String) : Except Fault (Option String) := do
  let holding ← directories.filterM fun directory =>
    match Path.holds? directory file with
    | some answer => pure answer
    | none => throw .mixedPaths
  return longest? holding

/-- The deepest source directory that a file lies in. -/
def sourceDirFor (project : Project) (file : String) : Except Fault (Option String) :=
  containingDir project.sourceDirs file

end Project

end ElmReach
