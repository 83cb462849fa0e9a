import ElmReach.Text.WordChar

/-!
# Names

A word is a name start (an ASCII letter or an underscore) and any number of word characters. A
dotted name is a sequence of words with single dots between them, such as `Json.Decode.Extra`.
Reading is greedy: it takes the longest word or dotted name at the front of a text.
-/

namespace ElmReach.Name

open Text

/-- Number of characters that continue a dotted name whose first character has been read. -/
def tailLength : List Char → Nat
  | '.' :: c :: rest => if isNameStart c then 2 + tailLength rest else 0
  | c :: rest => if isWordChar c then 1 + tailLength rest else 0
  | [] => 0

/-- Length of the longest dotted name at the front of the text, zero if there is none. -/
def dottedLength : List Char → Nat
  | c :: rest => if isNameStart c then 1 + tailLength rest else 0
  | [] => 0

/-- Length of the longest word at the front of the text, zero if there is none. -/
def wordLength : List Char → Nat
  | c :: rest => if isNameStart c then 1 + (rest.takeWhile isWordChar).length else 0
  | [] => 0

end ElmReach.Name
