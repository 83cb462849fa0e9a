import ElmReach.CommandLine.Run
import Std.Time.Format

/-!
# The command line program

The program reads the files that a command looks at into a file tree, runs the command on it, and
prints the report on the standard output and the log on the standard error.
-/

namespace ElmReach.Program

/-- What has been read of the file system. -/
structure Reading where
  entries : List (Place × Entry)
  /-- The places below which everything has been read. -/
  finished : List Place

namespace Reading

/-- Add an entry. -/
def add (reading : Reading) (place : Place) (entry : Entry) : Reading :=
  { reading with entries := (place, entry) :: reading.entries }

/-- Note that everything below a place is being read. -/
def finish (reading : Reading) (place : Place) : Reading :=
  { reading with finished := place :: reading.finished }

/-- Whether a place has been read. -/
def knows (reading : Reading) (place : Place) : Bool :=
  (reading.entries.lookup place).isSome

end Reading

/-- Where a link to a missing file is said to lead. No file can have this name. -/
def nowhere : String := "/\x00"

/-- What stands at a place. A link is read as a link to the place to which it leads in the end, and
one that leads in a circle as a link to itself. -/
def entryAt? (place : Place) : IO (Option Entry) := do
  let path := (← IO.currentDir) / place.render
  let .ok found ← path.symlinkMetadata.toBaseIO | return none
  match found.type with
  | .dir => return some .directory
  | .symlink =>
    match ← (IO.FS.realPath path).toBaseIO, ← path.metadata.toBaseIO with
    | .ok target, _ => return some (.link target.toString)
    | .error _, .error (.invalidArgument ..) => return some (.link place.render)
    | .error _, _ => return some (.link nowhere)
  | _ =>
    let .ok bytes ← (IO.FS.readBinFile path).toBaseIO | return none
    return some (.file bytes.toList)

/-- The names of the entries of a directory. -/
def namesAt (place : Place) : IO (List String) := do
  let path := (← IO.currentDir) / place.render
  let .ok entries ← path.readDir.toBaseIO | return []
  return entries.toList.map (·.fileName)

/-- The places above a place, the outermost first. -/
def above (place : Place) : List Place :=
  (List.range place.length).map place.take

mutual

/-- Read a place and all that lies below it, also through links. -/
partial def readBelow (reading : Reading) (place : Place) : IO Reading := do
  if place ∈ reading.finished then return reading
  match ← entryAt? place with
  | none => return reading
  | some .directory =>
    let names ← namesAt place
    names.foldlM (fun reading name => readBelow reading (place ++ [name]))
      ((reading.add place .directory).finish place)
  | some (.link target) => readWay ((reading.add place (.link target)).finish place) target
  | some entry => return (reading.add place entry).finish place

/-- Read the way to an anchored path, and all that lies below it. -/
partial def readWay (reading : Reading) (path : String) : IO Reading := do
  let place := (Path.ofString path).collapse.parts
  let way ← (above place).foldlM
    (fun reading place => do
      if reading.knows place then return reading
      match ← entryAt? place with
      | some .directory => return reading.add place .directory
      | some (.link target) => readWay (reading.add place (.link target)) target
      | _ => return reading)
    reading
  readBelow way place

end

/-- The host of a run, without files. -/
def surroundings : IO Host := do
  let names := "HOME" :: Settings.fieldNames.map Settings.variableOf
  let environment ← names.filterMapM fun name => do
    return (← IO.getEnv name).map fun value => (name, value)
  return {
    tree := .empty
    here := (Path.ofString (← IO.currentDir).toString).parts
    accountHome := "/"
    environment
    time := (← Std.Time.PlainDateTime.now).format "uuuu-MM-dd HH:mm:ss" }

/-- The host of a run with the files that a command looks at. -/
def hostFor (command : CommandLine.Command) : IO Host := do
  let host ← surroundings
  let base := Path.ofString host.here.render
  let settings := (Settings.homeFile host).toOption.toList ++ [Settings.fileName]
  let reading ← (settings.map Path.ofString ++ command.paths).foldlM
    (fun reading path => readWay reading (base.append path).render)
    ⟨[], []⟩
  return { host with tree := ⟨reading.entries⟩ }

/-- Print what a run has done and write its log. -/
def report (outcome : CommandLine.Outcome) : IO Unit := do
  for line in outcome.lines do
    IO.println line.render
  for record in outcome.log do
    IO.eprintln (record.level.name ++ " " ++ record.message)
  if let some fault := outcome.fault then
    IO.eprintln fault.message
  if let some file := outcome.host.sink.file then
    let handle ← IO.FS.Handle.mk file .append
    handle.putStr (outcome.host.sink.text outcome.host.time outcome.records)

end ElmReach.Program

open ElmReach in
/-- Run the command line. -/
def main (arguments : List String) : IO UInt32 := do
  match CommandLine.Command.read? arguments with
  | none =>
    IO.eprintln CommandLine.helpText
    return 2
  | some command =>
    let outcome := command.run (← Program.hostFor command)
    Program.report outcome
    if outcome.exit = 2 then
      IO.eprintln CommandLine.helpText
    return UInt32.ofNat outcome.exit
