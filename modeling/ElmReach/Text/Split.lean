/-!
# Splitting texts

A text is split at every occurrence of a separator; the pieces, joined by the separator, give the
text back.
-/

namespace ElmReach.Text

/-- Put `c` in front of the first piece. -/
def consFirst (c : Char) : List (List Char) → List (List Char)
  | [] => [[c]]
  | piece :: rest => (c :: piece) :: rest

/-- The pieces of a text between the occurrences of `separator`. There is always one piece more
than there are separators. -/
def splitAt (separator : Char) : List Char → List (List Char)
  | [] => [[]]
  | c :: rest =>
    if c = separator then [] :: splitAt separator rest
    else consFirst c (splitAt separator rest)

/-- The lines of a text; a line break at the end starts no further line. -/
def lines (text : List Char) : List (List Char) :=
  let pieces := splitAt '\n' text
  if pieces.getLast? = some [] then pieces.dropLast else pieces

end ElmReach.Text
