import ElmReach.Failure
import ElmReach.Path.Collapse

/-!
# File trees

The state of a file system: which files, directories and symbolic links exist where. A place is the
list of names that leads to it from the root, without links. Names are texts; bytes that are none
are left out.
-/

namespace ElmReach

/-- A location in a file tree, by the names from the root on. -/
abbrev Place := List String

namespace Place

/-- The text of a place: an anchored path. -/
def render (place : Place) : String :=
  "/" ++ Path.joinParts place

end Place

/-- What stands at a place. -/
inductive Entry where
  | file (bytes : List UInt8)
  | directory
  | link (target : String)
  deriving DecidableEq, Repr

/-- The entries of a file system. The root is always a directory and is not listed. -/
structure FileTree where
  entries : List (Place × Entry)
  deriving DecidableEq, Repr

namespace FileTree

/-- The tree that holds nothing. -/
def empty : FileTree := ⟨[]⟩

/-- What stands at a place; links are not followed. -/
def entryAt? (tree : FileTree) (place : Place) : Option Entry :=
  if place = [] then some .directory else tree.entries.lookup place

/-- The places of all directories. -/
def directories (tree : FileTree) : List Place :=
  [] :: tree.entries.filterMap fun (place, entry) =>
    if entry = .directory then some place else none

/-- The names of the entries of a directory. -/
def namesIn (tree : FileTree) (place : Place) : List String :=
  (tree.entries.filterMap fun (there, _) =>
    if there.dropLast = place then there.getLast? else none).eraseDups

/-- Put an entry at a place, instead of what stands there. -/
def set (tree : FileTree) (place : Place) (entry : Entry) : FileTree :=
  ⟨tree.entries.filter (·.1 ≠ place) ++ [(place, entry)]⟩

/-- Remove a place and all that lies below it. -/
def remove (tree : FileTree) (place : Place) : FileTree :=
  ⟨tree.entries.filter fun (there, _) => !place.isPrefixOf there⟩

end FileTree

end ElmReach
