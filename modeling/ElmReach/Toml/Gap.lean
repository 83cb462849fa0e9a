/-!
# Gaps between words

Blanks, line breaks and comments, and the characters that may not stand in a text.
-/

namespace ElmReach.Toml

/-- Whether `c` separates words on a line. -/
def isSpace (c : Char) : Bool :=
  c == ' ' || c == '\t'

/-- Whether `c` separates the items of an array. -/
def isArraySpace (c : Char) : Bool :=
  isSpace c || c == '\n'

/-- The text from its next word on. -/
def skipSpace (text : List Char) : List Char :=
  text.dropWhile isSpace

/-- Whether `c` may not stand in a comment or a string of one line. -/
def isForbidden (c : Char) : Bool :=
  (c.toNat < 32 && c != '\t') || c.toNat == 127

/-- Whether `c` may not stand in a string of several lines. -/
def isForbiddenInLines (c : Char) : Bool :=
  isForbidden c && c != '\n'

/-- What follows a comment, if the text starts with one; the text itself otherwise. -/
def skipComment? (text : List Char) : Option (List Char) :=
  match text with
  | '#' :: rest =>
    if (rest.takeWhile (· != '\n')).any isForbidden then none
    else some (rest.dropWhile (· != '\n'))
  | _ => some text

/-- Skip blanks, line breaks and comments, at most `fuel` times in turn. -/
def skipGap? (fuel : Nat) (text : List Char) : Option (List Char) :=
  match fuel with
  | 0 => some text
  | fuel + 1 =>
    match text.dropWhile isArraySpace with
    | '#' :: rest => (skipComment? ('#' :: rest)).bind (skipGap? fuel)
    | rest => some rest

end ElmReach.Toml
