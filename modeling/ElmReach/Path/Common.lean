import ElmReach.Path.Basic

/-!
# Common directories

The deepest directory that two paths have in common, by their names. Two paths have one only if
both are anchored or neither is.
-/

namespace ElmReach.Path

/-- The longest common beginning of two lists. -/
def commonParts : List String → List String → List String
  | a :: as, b :: bs => if a = b then a :: commonParts as bs else []
  | _, _ => []

/-- Whether a path's text starts with a slash. -/
def isAnchored (text : String) : Bool :=
  (ofString text).anchor ≠ .here

/-- The text of the deepest common directory, if there is one. -/
def common? (a b : String) : Option String :=
  if isAnchored a = isAnchored b then
    let parts := joinParts (commonParts (ofString a).parts (ofString b).parts)
    some (if isAnchored a then "/" ++ parts else parts)
  else none

/-- Whether `directory` is the deepest common directory of itself and `file`; nothing if the two
have none. -/
def holds? (directory file : String) : Option Bool :=
  (common? directory file).map (· == directory)

end ElmReach.Path
