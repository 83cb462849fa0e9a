import ElmReach.FileTree.Locate

/-!
# Walking directories

A walk visits a directory and the directories below it. An entry counts as a directory if it is one
or is a link to one; every other entry, also a link to nothing, is a file. Links to directories are
entered only if the walk follows links. All links on the way count together, so a walk that runs in
a circle ends where the text of an entry has more links than a search follows: there the link
counts as a file. A walk is in each directory while it is in those below, for which there is room of
a limited size.
-/

namespace ElmReach.FileTree

/-- A directory on a walk. -/
structure Visit where
  /-- The text of the directory, as the walk reached it. -/
  directory : String
  /-- The names of its files. -/
  files : List String
  deriving DecidableEq, Repr

/-- The directory that a link in a directory leads to, if the text of the link can be looked up. -/
def linkedDirectory? (tree : FileTree) (links : Nat) (place : Place) (target text : String) :
    Option Arrival :=
  if isTooLong text then none
  else
    match tree.followLink links place target with
    | .ok arrival => if arrival.entry = .directory then some arrival else none
    | .error _ => none

/-- Whether an entry of a directory counts as a file. -/
def countsAsFile (tree : FileTree) (links : Nat) (place : Place) (text name : String) : Bool :=
  match tree.entryAt? (place ++ [name]) with
  | some .directory => false
  | some (.link target) => (tree.linkedDirectory? links place target (Path.child text name)).isNone
  | _ => true

/-- The number of links and the place with which a walk goes on into an entry of a directory, if it
does. -/
def entered? (tree : FileTree) (followLinks : Bool) (links : Nat) (place : Place)
    (text name : String) : Option (Nat × Place) :=
  match tree.entryAt? (place ++ [name]) with
  | some .directory => some (links, place ++ [name])
  | some (.link target) =>
    if followLinks then
      (tree.linkedDirectory? links place target (Path.child text name)).map fun arrival =>
        (arrival.links, arrival.place)
    else none
  | _ => none

/-- The visit of the directory at `place`. -/
def visitOf (tree : FileTree) (links : Nat) (place : Place) (text : String) : Visit where
  directory := text
  files := (tree.namesIn place).filter (tree.countsAsFile links place text)

/-- Walk from the directory at `place`, which is reached as `text` with `links` more links to
follow. There is room for this many directories one inside the other. -/
def walk (tree : FileTree) (followLinks : Bool) (room links : Nat) (place : Place) (text : String) :
    Except Fault (List Visit) :=
  match room with
  | 0 => .error .tooDeep
  | room + 1 => do
    if isTooLong text then throw (.file .nameTooLong text)
    let below ← (tree.namesIn place).mapM fun name =>
      match tree.entered? followLinks links place text name with
      | some (left, there) => tree.walk followLinks room left there (Path.child text name)
      | none => pure []
    return tree.visitOf links place text :: below.flatten

/-- The visits of a walk that starts at the directory of a path. -/
def visits (tree : FileTree) (followLinks : Bool) (room : Nat) (here : Place) (path : String) :
    Except Fault (List Visit) :=
  match tree.locate here path with
  | .ok { place, entry := .directory, links } => tree.walk followLinks room links place path
  | .ok _ => .error (.file .notDirectory path)
  | .error error => .error (.file error path)

end ElmReach.FileTree
