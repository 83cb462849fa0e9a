import ElmReach.Path.Basic

/-!
# Collapsed paths

Collapsing a path removes each name together with the double dot behind it, without looking at any
file. Double dots at the front stay in a path that starts here and vanish from an anchored one.
-/

namespace ElmReach.Path

/-- Add a name to names that are kept in reverse. -/
def pushPart (anchored : Bool) (part : String) (reversed : List String) : List String :=
  if part ≠ ".." then part :: reversed
  else
    match reversed with
    | [] => if anchored then [] else [".."]
    | last :: rest => if last = ".." then ".." :: last :: rest else rest

/-- The names that are left after collapsing. -/
def collapseParts (anchored : Bool) (parts : List String) : List String :=
  (parts.foldl (fun reversed part => pushPart anchored part reversed) []).reverse

/-- The collapsed path. -/
def collapse (path : Path) : Path :=
  { path with parts := collapseParts (path.anchor ≠ .here) path.parts }

/-- The text of the collapsed path of a text. -/
def collapsed (text : String) : String :=
  (ofString text).collapse.render

/-- The text of an entry of a directory, given the directory's text. -/
def child (directory name : String) : String :=
  if directory.toList.getLast? = some '/' then directory ++ name else directory ++ "/" ++ name

end ElmReach.Path
