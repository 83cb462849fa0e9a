import ElmReach.FileTree.Write
import ElmReach.Log

/-!
# Where the log goes

A sink passes the records from a level on. It may have a log file, to which each record that passes
is appended as a line.
-/

namespace ElmReach

/-- Where log records go. -/
structure LogSink where
  /-- The lowest level that passes. -/
  level : Level
  /-- The anchored path of the log file. -/
  file : Option String
  deriving DecidableEq, Repr

namespace LogSink

/-- The sink before any other is opened. -/
def initial : LogSink := { level := Level.warning, file := none }

/-- The records that pass. -/
def pass (sink : LogSink) (records : List LogRecord) : List LogRecord :=
  records.filter fun record => sink.level ≤ record.level

/-- The lines of the records that pass, as they stand in the log file. -/
def text (sink : LogSink) (time : String) (records : List LogRecord) : String :=
  String.join ((sink.pass records).map fun record => record.line time ++ "\n")

/-- Append the records that pass to the log file. -/
def write (sink : LogSink) (time : String) (records : List LogRecord) (tree : FileTree) :
    FileTree :=
  match sink.file with
  | none => tree
  | some path =>
    match tree.append [] path (sink.text time records).toUTF8.toList with
    | .ok written => written
    | .error _ => tree

end LogSink

end ElmReach
