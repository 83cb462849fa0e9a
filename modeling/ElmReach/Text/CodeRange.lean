/-!
# Sets of characters given by code point ranges

A property of the Unicode standard is kept as a list of closed ranges of code points. The list
holds the characters beyond ASCII only: each property decides ASCII by a rule of its own.
-/

namespace ElmReach.Text

/-- A closed range of code points, given by its first and its last member. -/
abbrev CodeRange := Nat × Nat

/-- Whether the code point of `c` lies in one of the ranges. -/
def inRanges (ranges : List CodeRange) (c : Char) : Bool :=
  ranges.any fun (first, last) => first ≤ c.toNat && c.toNat ≤ last

end ElmReach.Text
