import ElmReach.Failure

/-!
# Log records and traced computations

Operations report what they do as log records, in order. A `Traced` computation comes to a `Trace`,
which holds the records and the outcome; a failure keeps the records that came before it. Records
are written to the log as soon as they are reported, so a computation can depend on those that were
reported before it.
-/

namespace ElmReach

/-- The weight of a log record. -/
abbrev Level := Nat

namespace Level

/-- The level of what a run does step by step. -/
def debug : Level := 10

/-- The level of what a run has found and how large it is. -/
def info : Level := 20

/-- The level of what a run passes over. -/
def warning : Level := 30

/-- The level of what makes a run fail. -/
def error : Level := 40

/-- The level above that of errors. -/
def critical : Level := 50

/-- The name of a level; levels between the five have a number only. -/
def name (level : Level) : String :=
  match level with
  | 10 => "DEBUG"
  | 20 => "INFO"
  | 30 => "WARNING"
  | 40 => "ERROR"
  | 50 => "CRITICAL"
  | other => "Level " ++ toString other

end Level

/-- A log record. -/
structure LogRecord where
  level : Level
  /-- Name of the logger that the record comes from. -/
  logger : String
  message : String
  deriving DecidableEq, Repr

namespace LogRecord

/-- The line of a record in a log file: time, level, logger and message. -/
def line (time : String) (record : LogRecord) : String :=
  let level := record.level.name
  let padding := String.ofList (List.replicate (8 - level.length) ' ')
  time ++ " " ++ level ++ padding ++ " " ++ record.logger ++ ": " ++ record.message

end LogRecord

namespace Logger

/-- The logger above all others. -/
def top : String := "elmsweep"

/-- The full name of a logger: all loggers lie below the top one. -/
def named : Option String → String
  | none => top
  | some name =>
    if name = top ∨ (top ++ ".").toList <+: name.toList then name else top ++ "." ++ name

/-- The logger of reading source texts. -/
def lexer : String := "elmsweep.lexing.lexer"

/-- The logger of making modules of source texts. -/
def sourceModule : String := "elmsweep.project.module"

/-- The logger of scanning directories for files. -/
def scanner : String := "elmsweep.project.scanner"

/-- The logger of building and analysing projects. -/
def project : String := "elmsweep.project.model"

/-- The logger of building graphs. -/
def graph : String := "elmsweep.graph.builder"

/-- The logger of searching graphs. -/
def reachability : String := "elmsweep.graph.reachability"

end Logger

/-- What came of a computation: the log records that it reported, and its outcome. -/
structure Trace (α : Type) where
  records : List LogRecord
  outcome : Except Failure α

/-- A computation that reports log records. It can look at the records that were reported before
it. -/
def Traced (α : Type) : Type :=
  List LogRecord → Trace α

namespace Traced

variable {α β : Type}

/-- Run a computation before which nothing was reported. -/
def run (computation : Traced α) : Trace α :=
  computation []

/-- A computation without records. -/
def ofOutcome (outcome : Except Failure α) : Traced α := fun _ =>
  { records := [], outcome }

/-- The records that were reported before. -/
def past : Traced (List LogRecord) := fun records =>
  { records := [], outcome := .ok records }

/-- Stop with a cause that the program reports. -/
def fail (error : Error) : Traced α :=
  ofOutcome (.error (.error error))

/-- Stop with a fault. -/
def stop (fault : Fault) : Traced α :=
  ofOutcome (.error (.fault fault))

/-- Report some records. -/
def sayAll (records : List LogRecord) : Traced Unit := fun _ =>
  { records, outcome := .ok () }

/-- Report one record. -/
def say (level : Level) (logger message : String) : Traced Unit :=
  sayAll [{ level, logger, message }]

/-- Continue with the result of `first`; the records come in order. -/
protected def bind (first : Traced α) (next : α → Traced β) : Traced β := fun past =>
  let begun := first past
  match begun.outcome with
  | .error failure => { records := begun.records, outcome := .error failure }
  | .ok value =>
    let ended := next value (past ++ begun.records)
    { records := begun.records ++ ended.records, outcome := ended.outcome }

/-- Computations go on behind each other until one of them fails. Their records come in order. -/
instance : Monad Traced where
  pure value := ofOutcome (.ok value)
  bind := Traced.bind

/-- Report the failures of a computation in another way. -/
def mapFailure (change : Failure → Failure) (computation : Traced α) : Traced α := fun past =>
  let trace := computation past
  { trace with outcome := trace.outcome.mapError change }

/-- The results for all items, in order, up to the first failure. -/
def forEach (items : List α) (act : α → Traced β) : Traced (List β) :=
  match items with
  | [] => pure []
  | item :: rest => do
    let first ← act item
    let others ← forEach rest act
    return first :: others

end Traced

end ElmReach
