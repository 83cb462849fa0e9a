import ElmReach.Text.Blank
import ElmReach.Text.WordChar

/-!
# Exposing lists

A module or import statement may end in `exposing (…)`. The entries of the list are divided by
commas outside inner parentheses, so `Msg(..)` is one entry; they are trimmed, blank entries are
dropped, and order and repetitions stay as written. A list that is not closed runs to the end of
the statement.
-/

namespace ElmReach.Exposing

open Text

/-- The word that introduces the list. -/
def keyword : List Char := ['e', 'x', 'p', 'o', 's', 'i', 'n', 'g']

/-- What follows the opening parenthesis, if the text starts with `exposing (`. -/
def inside? (text : List Char) : Option (List Char) :=
  if keyword.isPrefixOf text then
    match (text.drop keyword.length).dropWhile isBlank with
    | '(' :: rest => some rest
    | _ => none
  else none

/-- What follows the opening parenthesis of the first list in the text. The word `exposing` counts
only where no word character stands in front of it; `before` is the character in front of the
text. -/
def find? (before : Option Char) : List Char → Option (List Char)
  | [] => none
  | c :: rest =>
    if before.any isWordChar then find? (some c) rest
    else
      match inside? (c :: rest) with
      | some list => some list
      | none => find? (some c) rest

/-- The raw entries of a list, read behind its opening parenthesis with `depth` inner parentheses
open. -/
def split (depth : Nat) : List Char → List (List Char)
  | [] => [[]]
  | c :: rest =>
    if c = '(' then consFirst c (split (depth + 1) rest)
    else if c = ')' then if depth = 0 then [[]] else consFirst c (split (depth - 1) rest)
    else if c = ',' ∧ depth = 0 then [] :: split depth rest
    else consFirst c (split depth rest)

/-- The entries of the first exposing list in the text. -/
def entries (text : List Char) : List String :=
  match find? none text with
  | none => []
  | some list =>
    (((split 0 list).map trim).filter (!·.isEmpty)).map String.ofList

/-- The canonical text of an exposing list, with a space in front; empty for no entries. -/
def render (entries : List String) : List Char :=
  if entries.isEmpty then []
  else
    ' ' :: keyword ++ [' ', '('] ++ [',', ' '].intercalate (entries.map String.toList) ++ [')']

end ElmReach.Exposing
