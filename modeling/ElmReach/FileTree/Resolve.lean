import ElmReach.FileTree.Locate

/-!
# Resolving paths

The path without links that a path stands for once all links on the way are replaced by their
targets. Names that are missing stay as they are. If a link leads back to itself, the rest of the
path is kept behind it without being followed; a path that still runs through such a link has no
resolution. Each name on the way is looked up, which stops the resolution where no file system can
be asked for the name; what is kept behind a link is not looked up until the end. Links are replaced
one while the other is, in a room of limited size.

A link is known by the way on which it was reached: from the root, or from some directory at or
above the working directory. A circle of links that leaves the directory in which the way started
is therefore noticed one round later.
-/

namespace ElmReach.FileTree

/-- A place on a way. -/
structure Waypoint where
  place : Place
  /-- How many of the names lead to the directory in which the way starts; nothing is said for a way
  from the root. -/
  base : Option Nat
  base_le : ∀ names ∈ base, names ≤ place.length
  deriving DecidableEq

namespace Waypoint

/-- The start of ways from the root. -/
def root : Waypoint where
  place := []
  base := none
  base_le := by simp

/-- The start of ways from a directory. -/
def ofPlace (place : Place) : Waypoint where
  place := place
  base := some place.length
  base_le := by simp

/-- The waypoint of an entry. -/
def down (waypoint : Waypoint) (name : String) : Waypoint where
  place := waypoint.place ++ [name]
  base := waypoint.base
  base_le names hnames := by
    have hle := waypoint.base_le names hnames
    simp only [List.length_append, List.length_singleton]
    omega

/-- The waypoint of the directory above. Above its start, a way starts one directory higher. -/
def up (waypoint : Waypoint) : Waypoint where
  place := waypoint.place.dropLast
  base := waypoint.base.map fun names => min names (waypoint.place.length - 1)
  base_le names hnames := by
    obtain ⟨before, -, rfl⟩ := Option.map_eq_some_iff.mp hnames
    rw [List.length_dropLast]
    exact Nat.min_le_right _ _

/-- Where a path's text starts. -/
def start (waypoint : Waypoint) (path : String) : Waypoint :=
  if path.toList.head? = some '/' then root else waypoint

end Waypoint

/-- How far the links of a path could be replaced. -/
inductive Settled where
  /-- All of them. -/
  | fully (waypoint : Waypoint)
  /-- Up to a link that leads back to itself; the rest of the path is not followed. -/
  | circular (path : Path)
  /-- Up to a name that cannot be looked up, or to a link for which there is no room left. -/
  | stopped (fault : Fault)
  deriving DecidableEq

/-- The waypoints of all links. -/
def links (tree : FileTree) : List Waypoint :=
  tree.entries.flatMap fun (place, entry) =>
    match entry with
    | .link _ =>
      ⟨place, none, by simp⟩ ::
        (List.range (place.length + 1)).attach.map fun ⟨names, hnames⟩ =>
          ⟨place, some names, by simpa [Nat.lt_succ_iff] using hnames⟩
    | _ => []

/-- Where a link is found, the place is among those of the links. There are finitely many of them,
so only finitely many links can be replaced at the same time. -/
theorem mem_links {tree : FileTree} {waypoint : Waypoint} {target : String}
    (h : tree.entryAt? waypoint.place = some (.link target)) : waypoint ∈ tree.links := by
  unfold entryAt? at h
  split at h
  · simp at h
  · obtain ⟨before, after, hentries, -⟩ := List.lookup_eq_some_iff.mp h
    obtain ⟨place, base, hbase⟩ := waypoint
    refine List.mem_flatMap.mpr ⟨(place, .link target), by simp [hentries], ?_⟩
    cases base with
    | none => exact List.mem_cons_self
    | some names =>
      have hrange : names ∈ List.range (place.length + 1) :=
        List.mem_range.mpr (Nat.lt_succ_of_le (hbase names rfl))
      exact List.mem_cons_of_mem _ (List.mem_map.mpr ⟨⟨names, hrange⟩, List.mem_attach _ _, rfl⟩)

/-- Taking a member away from a list leaves fewer of its members. -/
theorem length_filter_notMem_cons_lt {α : Type} [BEq α] [LawfulBEq α] {all active : List α}
    {item : α} (hall : item ∈ all) (hactive : item ∉ active) :
    (all.filter (· ∉ item :: active)).length < (all.filter (· ∉ active)).length := by
  have hsplit : all.filter (· ∉ item :: active) = (all.filter (· ∉ active)).filter (· != item) := by
    rw [List.filter_filter]
    congr 1
    funext x
    by_cases hx : x = item <;> simp [hx]
  rw [hsplit]
  exact List.length_filter_lt_length_iff_exists.mpr ⟨item, by simp [hall, hactive], by simp⟩

/-- The steps of a text, also the empty ones between two slashes. -/
def splitSteps (text : String) : List String :=
  (Text.splitAt '/' text.toList).map String.ofList

/-- Keep the rest of a path behind a path. A rest that starts with a slash starts anew. -/
def keepBehind (path : Path) (rest : List String) : Path :=
  path.append (.ofString (Path.joinParts rest))

/-- Replace the links among the steps from a waypoint; `active` are the links that are being
replaced, for which there is `room`. -/
def settle (tree : FileTree) (room : Nat) (active : List Waypoint) (here : Waypoint)
    (steps : List String) : Settled :=
  match steps with
  | [] => .fully here
  | step :: rest =>
    if step = "" ∨ step = "." then tree.settle room active here rest
    else if step = ".." then tree.settle room active here.up rest
    else if '\x00' ∈ step.toList then
      .stopped (.file .nullByte (Place.render (here.down step).place))
    else
      match _h : tree.entryAt? (here.down step).place with
      | some (.link target) =>
        if _hactive : here.down step ∈ active then
          .circular (keepBehind { anchor := .root, parts := (here.down step).place } rest)
        else if room ≤ active.length then .stopped .tooDeep
        else
          match
            tree.settle room (here.down step :: active) (here.start target) (splitSteps target)
          with
          | .fully there => tree.settle room active there rest
          | .circular path => .circular (keepBehind path rest)
          | .stopped fault => .stopped fault
      | _ => tree.settle room active (here.down step) rest
termination_by ((tree.links.filter (· ∉ active)).length, steps.length)
decreasing_by
  · exact Prod.Lex.right _ (by simp)
  · exact Prod.Lex.right _ (by simp)
  · exact Prod.Lex.left _ _ (length_filter_notMem_cons_lt (mem_links _h) _hactive)
  · exact Prod.Lex.right _ (by simp)
  · exact Prod.Lex.right _ (by simp)

/-- The anchored path that a path stands for, as far as its links can be replaced. -/
def realPath (tree : FileTree) (room : Nat) (here : Place) (path : String) : Except Fault Path :=
  match tree.settle room [] ((Waypoint.ofPlace here).start path) (splitSteps path) with
  | .fully there => .ok { anchor := .root, parts := there.place }
  | .circular path => .ok path.collapse
  | .stopped fault => .error fault

/-- The anchored path that a path stands for. What was found is looked up once more: it fails with
the path that it found if that still runs through a link that leads back to itself, or if no file
system can be asked for it. -/
def resolve (tree : FileTree) (room : Nat) (here : Place) (path : String) : Except Fault Path := do
  let found ← tree.realPath room here path
  match tree.locate [] found.render with
  | .error .tooManyLinks => throw (.linkLoop found.render)
  | .error .nullByte => throw (.file .nullByte found.render)
  | _ => return found

end ElmReach.FileTree
