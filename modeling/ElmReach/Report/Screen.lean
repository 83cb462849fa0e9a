import ElmReach.Text.Blank
import ElmReach.Text.CellWidth

/-!
# Lines on a screen

Before a text is shown, some control characters are dropped and tabs are filled up with blanks. A
line that is too wide is broken between words; a word that is too wide for a line is folded over
several lines, or cut where folding is not wanted.
-/

namespace ElmReach.Report

/-- The distance of the tab stops. -/
def tabWidth : Nat := 8

/-- The characters that are dropped before a text is shown: bell, backspace, vertical tab, form
feed and return. -/
def isDropped (c : Char) : Bool :=
  c.toNat = 7 || c.toNat = 8 || c.toNat = 11 || c.toNat = 12 || c.toNat = 13

/-- Fill up to the next tab stop for each tab, from a column on. -/
def expandTabs (column : Nat) : List Char → List Char
  | [] => []
  | c :: rest =>
    if c = '\t' then
      let width := tabWidth - column % tabWidth
      List.replicate width ' ' ++ expandTabs (column + width) rest
    else c :: expandTabs (column + Text.cellWidth c) rest

/-- The lines of a text as they are shown. -/
def screenLines (text : List Char) : List (List Char) :=
  (Text.splitAt '\n' (text.filter (!isDropped ·))).map (expandTabs 0)

/-- The words of a line, each with the blanks behind it, and the first one also with the blanks
before it. -/
def spacedWords (line : List Char) : List (List Char) :=
  let before := (line.takeWhile Text.isBlank).length
  let word := ((line.drop before).takeWhile (!Text.isBlank ·)).length
  let behind := ((line.drop (before + word)).takeWhile Text.isBlank).length
  if _h : word = 0 ∨ line = [] then []
  else line.take (before + word + behind) :: spacedWords (line.drop (before + word + behind))
termination_by line.length
decreasing_by
  have hline : 0 < line.length := List.length_pos_iff.mpr fun hnil => _h (.inr hnil)
  have hword : word ≠ 0 := fun hzero => _h (.inl hzero)
  change (line.drop (before + word + behind)).length < line.length
  rw [List.length_drop]
  omega

/-- Cut a word into parts of at most a width. -/
def chop (width : Nat) (part : List Char) (used : Nat) : List Char → List (List Char)
  | [] => [part]
  | c :: rest =>
    if width < used + Text.cellWidth c then part :: chop width [c] (Text.cellWidth c) rest
    else chop width (part ++ [c]) (used + Text.cellWidth c) rest

/-- A paragraph whose words are being placed. -/
structure Filling where
  /-- The lines that are full. -/
  lines : List (List Char)
  /-- The line that is being filled. -/
  current : List Char
  /-- The number of its cells that are used. -/
  used : Nat

namespace Filling

/-- Start a line with a text; the first line is there from the start. -/
def startLine (filling : Filling) (text : List Char) : Filling where
  lines := if filling.current.isEmpty then filling.lines else filling.lines ++ [filling.current]
  current := text
  used := Text.cellLength text

/-- Place a word. -/
def place (width : Nat) (fold : Bool) (filling : Filling) (word : List Char) : Filling :=
  let size := Text.cellLength (Text.trimEnd word)
  if filling.used + size ≤ width then
    { filling with
      current := filling.current ++ word
      used := filling.used + Text.cellLength word }
  else if width < size && fold then (chop width [] 0 word).foldl startLine filling
  else filling.startLine word

end Filling

/-- Break a line into lines of at most a width. -/
def breakLine (width : Nat) (fold : Bool) (line : List Char) : List (List Char) :=
  match spacedWords line with
  | [] => [line]
  | words =>
    let filled := words.foldl (Filling.place width fold) { lines := [], current := [], used := 0 }
    filled.lines ++ [filled.current]

/-- A line without those blanks at its end that are too many for a width. -/
def dropExcess (width : Nat) (line : List Char) : List Char :=
  let blanks := line.length - (Text.trimEnd line).length
  line.take (line.length - min blanks (line.length - width))

/-- The front of a line, with a blank where half a character would be left. -/
def front (width : Nat) : List Char → List Char
  | [] => List.replicate width ' '
  | c :: rest =>
    if width < Text.cellWidth c then List.replicate width ' '
    else c :: front (width - Text.cellWidth c) rest

/-- A line of at most a width; a line that is cut ends with dots. -/
def cut (width : Nat) (line : List Char) : List Char :=
  if Text.cellLength line ≤ width then line else front (width - 1) line ++ ['…']

/-- A number of blanks. -/
def blanks (count : Nat) : List Char :=
  List.replicate count ' '

/-- The side of a column on which its texts stand. -/
inductive Side where
  | left
  | right
  deriving DecidableEq, Repr

/-- A line filled up to a width. -/
def aligned (side : Side) (width : Nat) (line : List Char) : List Char :=
  match side with
  | .left =>
    let kept := cut width line
    kept ++ blanks (width - Text.cellLength kept)
  | .right =>
    let kept := cut width (Text.trimEnd line)
    blanks (width - Text.cellLength kept) ++ kept

/-- A line in the middle of a width. -/
def centred (width : Nat) (line : List Char) : List Char :=
  let kept := Text.trimEnd line
  let before := (width - Text.cellLength kept) / 2
  blanks before ++ kept ++ blanks (width - Text.cellLength kept - before)

end ElmReach.Report
