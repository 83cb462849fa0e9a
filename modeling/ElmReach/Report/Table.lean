import ElmReach.Report.Markup
import ElmReach.Report.Screen

/-!
# Tables

A table has a title, columns with headers, and rows of marked texts. Its columns are as wide as
their widest text; what is wider once its tabs are filled up is broken or cut. The title is folded
to the width of the table.
-/

namespace ElmReach.Report

/-- A column of a table. -/
structure Column where
  header : String
  side : Side := .left
  deriving DecidableEq, Repr

/-- A table of marked texts. -/
structure Table where
  title : String
  columns : List Column
  rows : List (List String)
  deriving DecidableEq, Repr

/-- A printed line. -/
inductive Line where
  | text (value : List Char)
  /-- The cells of a row of a table, and the edge between them. -/
  | cells (edge : Char) (texts : List (List Char))
  /-- A rule between rows of a table. -/
  | rule (value : List Char)
  deriving DecidableEq, Repr

/-- Whether a line ends with `c` when the width of a text is measured. -/
def endsLine (c : Char) : Bool :=
  let n := c.toNat
  n == 10 || (28 ≤ n && n ≤ 30) || n == 0x85 || n == 0x2028 || n == 0x2029

/-- The width of the widest line of a text, whose tabs count nothing. -/
def measured (text : List Char) : Nat :=
  (text.splitOnP endsLine).foldl (fun width line => max width (Text.cellLength line)) 0

/-- The rule with a corner at either end, and with crossings at the edges of the columns. -/
def rule (left line crossing right : Char) (widths : List Nat) : Line :=
  let segments := widths.map fun width => List.replicate (width + 2) line
  .rule (left :: [crossing].intercalate segments ++ [right])

/-- The lines of a cell. -/
def cellLines (column : Column) (width : Nat) (text : List Char) : List (List Char) :=
  (screenLines text).flatMap fun line =>
    (breakLine width false line).map fun part => aligned column.side width (dropExcess width part)

/-- The lines of a row. Cells with fewer lines than others are filled up with blanks. -/
def rowLines (edge : Char) (columns : List (Column × Nat)) (row : List (List Char)) : List Line :=
  let cells := (columns.zip row).map fun ((column, width), text) =>
    (width, cellLines column width text)
  let height := cells.foldl (fun height (_, lines) => max height lines.length) 0
  (List.range height).map fun n =>
    .cells edge (cells.map fun (width, lines) => lines.getD n (blanks width))

/-- The lines of a title. -/
def titleLines (width : Nat) (title : List Char) : List Line :=
  (screenLines title).flatMap fun line =>
    (breakLine width true line).map fun part => .text (centred width (dropExcess width part))

namespace Table

/-- The printed lines of a table. -/
def lines (table : Table) : Except Fault (List Line) := do
  let headers ← table.columns.mapM fun column => Markup.plain column.header
  let rows ← table.rows.mapM fun row => row.mapM Markup.plain
  let title ← Markup.plain table.title
  let visible (text : List Char) : List Char := text.filter (!isDropped ·)
  let widths := (List.range table.columns.length).map fun n =>
    (headers :: rows).foldl (fun width row => max width (measured (visible (row.getD n [])))) 0
  let columns := table.columns.zip widths
  let whole := widths.foldl (fun whole width => whole + width + 3) 1
  return titleLines whole title ++ rule '┏' '━' '┳' '┓' widths ::
    rowLines '┃' columns headers ++ rule '┡' '━' '╇' '┩' widths ::
    rows.flatMap (rowLines '│' columns) ++ [rule '└' '─' '┴' '┘' widths]

end Table

end ElmReach.Report
