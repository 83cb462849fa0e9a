import ElmReach.Text.Split

/-!
# Paths

A path is read from its text without looking at any file: empty segments, single dots and slashes
at the end vanish, and double dots stay. One leading slash, or three and more, anchor the path at
the root; exactly two leading slashes are an anchor of their own.
-/

namespace ElmReach

/-- Where a path starts. -/
inductive Anchor where
  | here
  | root
  | doubleRoot
  deriving DecidableEq, Repr

/-- A path: an anchor and the names on the way. -/
structure Path where
  anchor : Anchor
  parts : List String
  deriving DecidableEq, Repr

namespace Path

/-- The anchor of a path's text. -/
def anchorOf (text : List Char) : Anchor :=
  match (text.takeWhile (· == '/')).length with
  | 0 => .here
  | 2 => .doubleRoot
  | _ => .root

/-- Read a path. -/
def ofString (text : String) : Path where
  anchor := anchorOf text.toList
  parts :=
    ((Text.splitAt '/' text.toList).filter fun part => part ≠ [] ∧ part ≠ ['.']).map String.ofList

/-- The names, with slashes between them. -/
def joinParts (parts : List String) : String :=
  "/".intercalate parts

/-- The text of a path. The path without names that starts here is a single dot. -/
def render (path : Path) : String :=
  match path.anchor with
  | .here => if path.parts.isEmpty then "." else joinParts path.parts
  | .root => "/" ++ joinParts path.parts
  | .doubleRoot => "//" ++ joinParts path.parts

/-- The normal text of a path's text. -/
def tidy (text : String) : String :=
  (ofString text).render

/-- Follow `next` from `path`; an anchored path starts anew. -/
def append (path next : Path) : Path :=
  match next.anchor with
  | .here => { path with parts := path.parts ++ next.parts }
  | _ => next

/-- The last name of a path, empty if it has none. -/
def name (path : Path) : String :=
  path.parts.getLast?.getD ""

/-- A file name without its extension: without its last dot and what follows it, provided that
something stands before and behind that dot. -/
def stemOf (name : List Char) : List Char :=
  let extension := (name.reverse.takeWhile (· != '.')).length
  if 0 < extension ∧ extension + 1 < name.length then name.take (name.length - extension - 1)
  else name

/-- The last name of a path without its extension. -/
def stem (path : Path) : String :=
  String.ofList (stemOf path.name.toList)

/-- The names that lead from `base` to `path`, if `path` lies below `base` or is equal to it. -/
def partsBelow? (path base : Path) : Option (List String) :=
  if path.anchor = base.anchor ∧ base.parts <+: path.parts then
    some (path.parts.drop base.parts.length)
  else none

/-- The text of the path relative to `base`, if it lies below it. -/
def relativeTo? (path base : Path) : Option Path :=
  (path.partsBelow? base).map fun parts => { anchor := .here, parts }

end Path

end ElmReach
