import ElmReach.FileTree.Walk
import ElmReach.Host
import ElmReach.Log
import ElmReach.Text.Order

/-!
# Finding source files

A scan lists the files below some directories whose names end with an extension. A file is left out
if its directory or the file itself is excluded; an exclusion is exact, so the directories below an
excluded one are scanned. A directory that the file system refuses to list contributes nothing; one
whose text no file system can be asked for, or that is too deep to be walked, stops the scan.
-/

namespace ElmReach

/-- What a scan looks for. -/
structure SourceScan where
  /-- Directories whose own files are left out. -/
  excludeDirs : List String
  /-- Files that are left out. -/
  excludeFiles : List String
  /-- What the names of the files end with. -/
  extension : String
  /-- Whether links to directories are entered. -/
  followLinks : Bool
  deriving DecidableEq, Repr

namespace SourceScan

/-- Whether a file is left out. -/
def excludes (scan : SourceScan) (directory file : String) : Bool :=
  directory ∈ scan.excludeDirs.map Path.collapsed || file ∈ scan.excludeFiles.map Path.collapsed

/-- The files of a visited directory with the extension, each with its directory. -/
def candidates (scan : SourceScan) (visit : FileTree.Visit) : List (String × String) :=
  (visit.files.filter fun name => scan.extension.toList.isSuffixOf name.toList).map fun name =>
    (visit.directory, Path.child visit.directory name)

/-- The files below one directory. -/
def filesBelow (scan : SourceScan) (host : Host) (directory : String) : Traced (List String) :=
  let record (level : Level) (message : String) : LogRecord :=
    { level, logger := Logger.scanner, message }
  match host.tree.visits scan.followLinks host.room.directories host.here directory with
  | .error (.file .nullByte place) => .stop (.file .nullByte place)
  | .error (.file error place) => do
    .sayAll
      [record Level.warning
        ("Cannot scan source directory " ++ directory ++ ": " ++ error.render place)]
    return []
  | .error fault => .stop fault
  | .ok visits => do
    let found := visits.flatMap scan.candidates
    let (skipped, kept) := found.partition fun (directory, file) => scan.excludes directory file
    .sayAll
      ((Text.sorted (skipped.map Prod.snd)).map
          (fun file => record Level.debug ("Skipped (excluded): " ++ file)) ++
        [record Level.debug
          ("Scanned " ++ directory ++ ": " ++ toString kept.length ++ " files, " ++
            toString skipped.length ++ " excluded")])
    return kept.map Prod.snd

/-- The files below some directories, in ascending order and each one once. -/
def run (scan : SourceScan) (host : Host) (directories : List String) : Traced (List String) := do
  let found ← Traced.forEach directories fun directory =>
    scan.filesBelow host (Path.collapsed directory)
  return Text.sortedSet found.flatten

end SourceScan

end ElmReach
