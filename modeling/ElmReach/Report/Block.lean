import ElmReach.Report.Json
import ElmReach.Report.Table

/-!
# Report blocks

What a command prints: plain texts, marked texts and tables, one below the other. A block that
cannot be printed ends the report.
-/

namespace ElmReach.Report

/-- A part of what a command prints. -/
inductive Block where
  /-- A text that is printed as it is. -/
  | plain (text : String)
  /-- A marked text for the screen. -/
  | marked (text : String)
  | table (content : Table)
  deriving Repr

/-- A line of a report: a text, or the cells of a row of a table. -/
inductive Row where
  | line (text : String)
  | cells (texts : List String)
  deriving DecidableEq, Repr

namespace Line

/-- The text of a line. -/
def render : Line → String
  | .text value => String.ofList value
  | .cells edge texts =>
    String.ofList
      (edge :: [edge].intercalate (texts.map fun text => ' ' :: text ++ [' ']) ++ [edge])
  | .rule value => String.ofList value

/-- A line without its blanks at the ends, if it is no rule. -/
def row? : Line → Option Row
  | .text value => some (.line (String.ofList (Text.trim value)))
  | .cells _ texts => some (.cells (texts.map fun text => String.ofList (Text.trim text)))
  | .rule _ => none

end Line

namespace Block

/-- The printed lines of a block. -/
def lines : Block → Except Fault (List Line)
  | .plain text => .ok ((Text.splitAt '\n' text.toList).map .text)
  | .marked text => do
    let shown ← Markup.plain text
    return (screenLines shown).map .text
  | .table content => content.lines

/-- The printed lines of some blocks, up to the first one that cannot be printed. -/
def print : List Block → List Line × Option Fault
  | [] => ([], none)
  | block :: rest =>
    match block.lines with
    | .error fault => ([], some fault)
    | .ok first =>
      let (others, fault) := print rest
      (first ++ others, fault)

end Block

/-- The report of an error in words; what it says is a marked text. -/
def errorLine (message : String) : Block :=
  .marked ("[red]Error:[/red] " ++ message)

/-- The report of an error as JSON. -/
def errorJson (error : Error) : Json :=
  .object
    [("error", .text error.label), ("message", .text error.message),
      ("details", .object (error.details.map fun (name, value) => (name, .text value)))]

/-- The report of an error in a format. -/
def errorBlock (json : Bool) (error : Error) : Block :=
  if json then .plain (errorJson error).render else errorLine (Markup.escape error.render)

end ElmReach.Report
