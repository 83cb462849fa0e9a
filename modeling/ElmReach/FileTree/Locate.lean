import ElmReach.FileTree.Basic

/-!
# Locating files

Following a path through a file tree: links are replaced by their targets wherever they stand, a
double dot leads to the directory above, and the search stops with the first name that is missing,
too long, or behind a file. At most forty links are followed on the whole way.
-/

namespace ElmReach.FileTree

/-- The most links that one search follows. -/
def maxLinks : Nat := 40

/-- The most bytes that a name can have. -/
def maxNameBytes : Nat := 255

/-- The most bytes that the text of a path can have. -/
def maxPathBytes : Nat := 4095

/-- Whether a path's text is too long to be looked up. -/
def isTooLong (path : String) : Bool :=
  maxPathBytes < path.utf8ByteSize

/-- The names on the way of a path's text, single and double dots among them. -/
def namesOf (path : String) : List String :=
  ((Text.splitAt '/' path.toList).filter (· ≠ [])).map String.ofList

/-- Whether a path's text ends with a slash. -/
def endsWithSlash (path : String) : Bool :=
  path.toList.getLast? = some '/'

/-- The steps of a path's text. A slash at the end asks for a directory, as a single dot does. -/
def stepsOf (path : String) : List String :=
  namesOf path ++ if endsWithSlash path then ["."] else []

/-- Where a path's text starts, seen from the directory `here`. -/
def startOf (here : Place) (path : String) : Place :=
  if path.toList.head? = some '/' then [] else here

/-- The end of a search. -/
structure Arrival where
  place : Place
  /-- What stands at the place. -/
  entry : Entry
  /-- How many more links could have been followed. -/
  links : Nat
  deriving DecidableEq, Repr

/-- Follow steps from a directory, with `links` more links to follow. -/
def follow (tree : FileTree) (links : Nat) (here : Place) (steps : List String) :
    Except FileError Arrival :=
  match steps with
  | [] => .ok { place := here, entry := .directory, links }
  | step :: rest =>
    if step = "." then follow tree links here rest
    else if step = ".." then follow tree links here.dropLast rest
    else if maxNameBytes < step.utf8ByteSize then .error .nameTooLong
    else
      match tree.entryAt? (here ++ [step]) with
      | none => .error .notFound
      | some .directory => follow tree links (here ++ [step]) rest
      | some (.file bytes) =>
        if rest = [] then .ok { place := here ++ [step], entry := .file bytes, links }
        else .error .notDirectory
      | some (.link target) =>
        match links with
        | 0 => .error .tooManyLinks
        | links + 1 => follow tree links (startOf here target) (stepsOf target ++ rest)
termination_by (links, steps.length)

/-- A search does not win links. -/
theorem links_le_of_follow {tree : FileTree} {links : Nat} {here : Place} {steps : List String}
    {arrival : Arrival} (h : tree.follow links here steps = .ok arrival) :
    arrival.links ≤ links := by
  fun_induction follow tree links here steps generalizing arrival with
  | case1 => cases h; exact Nat.le_refl _
  | case2 _ _ _ ih => exact ih h
  | case3 _ _ _ _ ih => exact ih h
  | case4 => cases h
  | case5 => cases h
  | case6 _ _ _ _ _ _ _ _ ih => exact ih h
  | case7 => cases h; exact Nat.le_refl _
  | case8 => cases h
  | case9 => cases h
  | case10 _ _ _ _ _ _ _ _ _ ih => exact Nat.le_succ_of_le (ih h)

/-- Follow a link that stands in a directory, with `links` more links to follow. -/
def followLink (tree : FileTree) (links : Nat) (here : Place) (target : String) :
    Except FileError Arrival :=
  match links with
  | 0 => .error .tooManyLinks
  | links + 1 => tree.follow links (startOf here target) (stepsOf target)

/-- The place that a path leads to from the directory `here`, and what stands there. -/
def locate (tree : FileTree) (here : Place) (path : String) : Except FileError Arrival :=
  if '\x00' ∈ path.toList then .error .nullByte
  else if path = "" then .error .notFound
  else if isTooLong path then .error .nameTooLong
  else tree.follow maxLinks (startOf here path) (stepsOf path)

/-- Whether a path leads to something. A path that is too long is an error of its own. -/
def exists? (tree : FileTree) (here : Place) (path : String) : Except FileError Bool :=
  match tree.locate here path with
  | .ok _ => .ok true
  | .error .nameTooLong => .error .nameTooLong
  | .error _ => .ok false

/-- The bytes of the file that a path leads to; nothing if it leads to no file. A path that is too
long is an error of its own. -/
def file? (tree : FileTree) (here : Place) (path : String) :
    Except FileError (Option (List UInt8)) :=
  match tree.locate here path with
  | .ok { entry := .file bytes, .. } => .ok (some bytes)
  | .ok _ => .ok none
  | .error .nameTooLong => .error .nameTooLong
  | .error _ => .ok none

/-- The bytes of the file that a path leads to. -/
def read (tree : FileTree) (here : Place) (path : String) : Except FileError (List UInt8) :=
  match tree.locate here path with
  | .ok { entry := .file bytes, .. } => .ok bytes
  | .ok _ => .error .isDirectory
  | .error error => .error error

end ElmReach.FileTree
