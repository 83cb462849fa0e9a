import ElmReach.Assoc
import ElmReach.Encoding.Registry
import ElmReach.FileTree.Resolve
import ElmReach.Log.Sink

/-!
# The host of a run

What a run finds around it: the file system, the working directory, the account's home directory,
the environment variables, the time, the encodings that it knows, how deep its calls can be nested,
and where the log goes. The file system is that of the beginning; what the log adds to it follows
from the records that were reported since.
-/

namespace ElmReach

/-- How deep the calls of a run can be nested before its stack is used up. How much of the stack a
run has left for each purpose depends on where it is called from. -/
structure CallRoom where
  /-- The room for values inside values in a settings file; an array takes two parts of it and an
  inline table takes three. -/
  values : Nat := 970
  /-- How many links can be replaced, each one while the one before is. -/
  links : Nat := 970
  /-- How many directories a walk can be in at once, each one inside the one before. -/
  directories : Nat := 970

/-- The surroundings of a run. -/
structure Host where
  /-- The file system at the beginning. -/
  tree : FileTree
  /-- The working directory. -/
  here : Place
  /-- The home directory of the account, where the environment says nothing else. -/
  accountHome : String
  /-- The environment variables. -/
  environment : Assoc String
  /-- The time, as it is written into the log file. -/
  time : String
  /-- The encodings that source files can be read in. -/
  codecs : Codecs := .builtin
  room : CallRoom := {}
  /-- Where the log goes. -/
  sink : LogSink := .initial

namespace Host

/-- The home directory: the one that the environment names, without slashes at its end, or that of
the account. A text that starts with a tilde names none. -/
def home (host : Host) : Except Fault String :=
  let named := ((host.environment.get? "HOME").getD host.accountHome).toList
  let directory := (named.reverse.dropWhile (· == '/')).reverse
  match directory with
  | [] => .ok "/"
  | '~' :: _ => .error .noHome
  | _ => .ok (String.ofList directory)

/-- The anchored path that a path stands for, seen from the working directory. -/
def resolve (host : Host) (path : String) : Except Fault Path :=
  host.tree.resolve host.room.links host.here path

/-- The file system after some records have been reported. -/
def treeAfter (host : Host) (records : List LogRecord) : FileTree :=
  host.sink.write host.time records host.tree

/-- Let the log go to a sink with a lowest level and an optional log file, which is created if it is
missing; an empty name is no file. -/
def openLog (host : Host) (level : Level) (file : Option String) : Except Fault Host :=
  match file.filter (· ≠ "") with
  | none => .ok { host with sink := { level, file := none } }
  | some name =>
    let path := Path.collapsed ((Path.ofString host.here.render).append (.ofString name)).render
    match host.tree.append host.here path [] with
    | .error error => .error (.file error path)
    | .ok tree => .ok { host with tree, sink := { level, file := some path } }

end Host

end ElmReach
