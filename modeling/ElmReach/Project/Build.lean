import ElmReach.Project.Basic
import ElmReach.Project.Config
import ElmReach.Settings.Basic
import ElmReach.SourceScan

/-!
# Building projects

A project is built from its configuration: the root is resolved, source directories outside of it
are refused, the entry file of an application is read, and the source files are listed.
-/

namespace ElmReach.Project

/-- Resolve a path against the project root. -/
def resolveIn (host : Host) (root : Path) (path : String) : Except Failure Path :=
  match host.resolve (root.append (.ofString path)).render with
  | .ok found => .ok found
  | .error (.file .nullByte place) => .error (.fault (.file .nullByte place))
  | .error fault =>
    .error (.error (.invalidPath (Path.tidy path) ("Cannot resolve path: " ++ fault.message)))

/-- Resolve the project root itself. -/
def resolveRoot (host : Host) (root : String) : Except Fault Path :=
  host.resolve (Path.tidy root)

/-- The path to which a path resolves, if that is the root or lies below it. -/
def pathWithin? (host : Host) (root : Path) (path : String) : Except Failure (Option Path) :=
  match resolveIn host root path with
  | .ok found => .ok (if (found.partsBelow? root).isSome then some found else none)
  | .error (.error _) => .ok none
  | .error (.fault fault) => .error (.fault fault)

/-- The resolved source directories inside the root, each one once, behind those `accepted`
already. The others are refused with a warning. -/
def acceptDirs (host : Host) (root : Path) (accepted : List String) :
    List String → Traced (List String)
  | [] => pure accepted
  | directory :: rest => do
    match ← .ofOutcome (pathWithin? host root directory) with
    | none =>
      .say Level.warning Logger.project
        ("Rejected source directory outside the project root: " ++ directory)
      acceptDirs host root accepted rest
    | some found =>
      let grown := if found.render ∈ accepted then accepted else accepted ++ [found.render]
      acceptDirs host root grown rest

/-- The source directories of a project; there must be one. -/
def sourceDirsOf (host : Host) (root : Path) (declared : List String) :
    Traced (List String) := do
  let accepted ← acceptDirs host root [] declared
  if accepted.isEmpty then .fail (.noSourceDirs root.render) else return accepted

/-- Resolve paths against the project root and give their texts. -/
def resolveAll (host : Host) (root : Path) (paths : List String) :
    Except Failure (List String) :=
  paths.mapM fun path => (resolveIn host root path).map Path.render

/-- A project without its files, for a shape that is known. -/
def scanned (host : Host) (settings : Settings) (config : ProjectConfig) (root : Path)
    (sourceDirs : List String) (shape : ProjectShape) : Traced Project := do
  let excludeDirs ← Traced.ofOutcome (resolveAll host root config.excludeDirs)
  let excludeFiles ← Traced.ofOutcome (resolveAll host root config.excludeFiles)
  let scan : SourceScan :=
    { excludeDirs, excludeFiles, extension := settings.extension
      followLinks := settings.followLinks }
  let files ← scan.run host sourceDirs
  return { root := root.render, sourceDirs, excludeDirs, excludeFiles, files, shape }

/-- Read the entry module of an application. -/
def readEntry (host : Host) (settings : Settings) (sourceDirs : List String)
    (path : String) : Traced SourceModule := do
  let sourceRoot ← Traced.ofOutcome ((containingDir sourceDirs path).mapError .fault)
  (SourceModule.read host settings.encoding path sourceRoot).mapFailure fun failure =>
    match failure with
    | .error (.unreadableFile _ reason) => .error (.unreadableEntry path reason)
    | other => other

/-- Build an application. Its entry file is read before the source files are listed. -/
def application (host : Host) (settings : Settings) (config : ProjectConfig) :
    Traced Project := do
  let entryFile := config.entryFile.getD ""
  if entryFile = "" then
    .fail
      (.invalidField "entry_file" (config.entryFile.elim .absent .text)
        "an application needs an entry file")
  else
    let root ← Traced.ofOutcome ((resolveRoot host config.root).mapError .fault)
    let sourceDirs ← sourceDirsOf host root config.sourceDirs
    let found ← Traced.ofOutcome (resolveIn host root entryFile)
    let entry ← readEntry host settings sourceDirs found.render
    let project ← scanned host settings config root sourceDirs (.application entry)
    .say Level.info Logger.project
      ("Application rooted at " ++ entry.name ++ ": " ++ toString project.files.length ++
        " source files")
    return project

/-- Build a package. -/
def package (host : Host) (settings : Settings) (config : ProjectConfig) : Traced Project := do
  let exposed := config.exposed.names
  if exposed.isEmpty then
    .fail
      (.invalidField "exposed_modules" config.exposed.toValue
        "a package needs at least one exposed module")
  else
    let root ← Traced.ofOutcome ((resolveRoot host config.root).mapError .fault)
    let sourceDirs ← sourceDirsOf host root config.sourceDirs
    let project ← scanned host settings config root sourceDirs (.package exposed)
    .say Level.info Logger.project
      ("Package exposing " ++ toString exposed.length ++ " modules: " ++
        toString project.files.length ++ " source files")
    return project

/-- Build the project of a configuration. -/
def build (host : Host) (settings : Settings) (config : ProjectConfig) : Traced Project :=
  match config.kind with
  | some "application" => application host settings config
  | some "package" => package host settings config
  | kind => .fail (.unknownKind kind)

end ElmReach.Project
