import ElmReach.FileTree.Locate

/-!
# Writing files

A file is written where its path leads, through links; a last name that is missing is created.
Directories on the way are created only where that is asked for.
-/

namespace ElmReach.FileTree

/-- The place of the file that writing to a path writes, with `links` more links to follow. A path
that ends with a slash asks for a directory, which cannot be written. -/
def writePlace (tree : FileTree) (links : Nat) (here : Place) (path : String) :
    Except FileError Place :=
  match (namesOf path).getLast? with
  | none => .error .isDirectory
  | some name =>
    match _h : tree.follow links (startOf here path) (namesOf path).dropLast with
    | .error error => .error error
    | .ok { place, entry := .directory, links := left } =>
      if name = "." ∨ name = ".." ∨ endsWithSlash path then .error .isDirectory
      else if maxNameBytes < name.utf8ByteSize then .error .nameTooLong
      else
        match tree.entryAt? (place ++ [name]), left with
        | some .directory, _ => .error .isDirectory
        | some (.link _), 0 => .error .tooManyLinks
        | some (.link target), left + 1 => tree.writePlace left place target
        | _, _ => .ok (place ++ [name])
    | .ok _ => .error .notDirectory
termination_by links
decreasing_by exact links_le_of_follow _h

/-- Append bytes to the file at a path, which is created if it is missing. -/
def append (tree : FileTree) (here : Place) (path : String) (bytes : List UInt8) :
    Except FileError FileTree :=
  if '\x00' ∈ path.toList then .error .nullByte
  else if path = "" then .error .notFound
  else if isTooLong path then .error .nameTooLong
  else
    match tree.writePlace maxLinks here path with
    | .error error => .error error
    | .ok place =>
      match tree.entryAt? place with
      | some (.file old) => .ok (tree.set place (.file (old ++ bytes)))
      | _ => .ok (tree.set place (.file bytes))

/-- Go down the steps from a directory and create the directories that are missing. -/
def makeDirectories (tree : FileTree) (here : Place) : List String → FileTree × Place
  | [] => (tree, here)
  | step :: rest =>
    match tree.follow maxLinks here [step] with
    | .ok arrival => tree.makeDirectories arrival.place rest
    | .error _ => (tree.set (here ++ [step]) .directory).makeDirectories (here ++ [step]) rest

/-- Put an entry at a path from a directory, and create the directories on the way. A file is
written through links, a directory that exists is kept. -/
def put (tree : FileTree) (here : Place) (path : String) (entry : Entry) : FileTree :=
  let names := namesOf path
  match entry with
  | .directory => (tree.makeDirectories here names).1
  | _ =>
    let (grown, parent) := tree.makeDirectories here names.dropLast
    let last := names.getLast?.toList
    match entry, grown.writePlace maxLinks parent (Path.joinParts last) with
    | .file bytes, .ok place => grown.set place (.file bytes)
    | _, _ => grown.set (parent ++ last) entry

/-- Take away the entry at a path from a directory, and all that lies below it. -/
def delete (tree : FileTree) (here : Place) (path : String) : FileTree :=
  let names := namesOf path
  match tree.follow maxLinks here names.dropLast with
  | .ok arrival => tree.remove (arrival.place ++ names.getLast?.toList)
  | .error _ => tree

end ElmReach.FileTree
