/-!
# The order of texts

Texts are ordered by the code points of their characters.
-/

namespace ElmReach.Text

/-- The texts in ascending order; equal texts are kept. -/
def sorted (texts : List String) : List String :=
  texts.mergeSort fun a b => !(b < a)

/-- The texts in ascending order, each one once. -/
def sortedSet (texts : List String) : List String :=
  sorted texts.eraseDups

end ElmReach.Text
