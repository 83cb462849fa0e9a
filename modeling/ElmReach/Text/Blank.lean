import ElmReach.Text.Split

/-!
# Blank characters

Blanks separate words. A text is trimmed at both ends, split into its words, or collapsed: its
words joined by single spaces.
-/

namespace ElmReach.Text

/-- Whether `c` is blank: the ASCII white space and separators and the space characters of
Unicode. The zero-width space and the byte-order mark are not blank. -/
def isBlank (c : Char) : Bool :=
  let n := c.toNat
  (9 ≤ n && n ≤ 13) || (28 ≤ n && n ≤ 32) || n == 0x85 || n == 0xA0 || n == 0x1680 ||
    (0x2000 ≤ n && n ≤ 0x200A) || n == 0x2028 || n == 0x2029 || n == 0x202F || n == 0x205F ||
    n == 0x3000

/-- The text without the blanks at its end. -/
def trimEnd : List Char → List Char
  | [] => []
  | c :: rest =>
    match trimEnd rest with
    | [] => if isBlank c then [] else [c]
    | kept => c :: kept

/-- The text without the blanks at its two ends. -/
def trim (text : List Char) : List Char :=
  trimEnd (text.dropWhile isBlank)

/-- The text without the blanks at its two ends. -/
def trimmed (text : String) : String :=
  String.ofList (trim text.toList)

/-- The words of a text: its longest runs of characters that are not blank. -/
def words : List Char → List (List Char)
  | [] => []
  | c :: rest =>
    if isBlank c then words rest
    else
      match rest with
      | [] => [[c]]
      | next :: _ => if isBlank next then [c] :: words rest else consFirst c (words rest)

/-- The words of a text, joined by single spaces. -/
def collapse (text : List Char) : List Char :=
  [' '].intercalate (words text)

end ElmReach.Text
