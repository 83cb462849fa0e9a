import ElmReach.Proofs.DirectoryWalk

/-!
# Paths without links on their way

A path on whose way no link stands is resolved to what is left of it after collapsing; else each
link is replaced by what it leads to. What is left after collapsing is found by going through the
parts of the path, one place after the other. The text of a path ends with a slash only if it is
made of slashes, so the directory in which an entry stands can be read from the entry's text.
-/

namespace ElmReach

/-- A part of a path, also a double dot, can stand between the slashes of the path's text. -/
theorem IsPart.isPiece {part : String} (h : IsPart part) : Path.IsPiece part := by
  rcases h with rfl | hname
  · exact ⟨by decide, by decide, by decide⟩
  · exact hname.isPiece

namespace Path

/-- The text of the directory in which a file stands: what stands in front of the last slash, and
the slashes themselves if there is nothing else. -/
def directoryOf (file : String) : String :=
  let front := (file.toList.reverse.dropWhile (· != '/')).reverse
  String.ofList
    (if front.all (· == '/') then front else (front.reverse.dropWhile (· == '/')).reverse)

/-- A text that is not empty, and that ends with a slash only if it is made of slashes. -/
structure EndsPlain (text : String) : Prop where
  ne_empty : text ≠ ""
  slashes : text.toList.getLast? = some '/' → ∀ c ∈ text.toList, c = '/'

variable {directory name : String}

/-- The directory of a child is where the child was put, if a name was put there and no path. -/
theorem directoryOf_child (hdirectory : EndsPlain directory) (hname : '/' ∉ name.toList) :
    directoryOf (child directory name) = directory := by
  have hskip (front : List Char) : ((front ++ name.toList).reverse.dropWhile (· != '/')) =
      front.reverse.dropWhile (· != '/') := by
    rw [List.reverse_append, List.dropWhile_append_of_pos]
    intro c hc
    exact bne_iff_ne.mpr fun hslash => hname (hslash ▸ List.mem_reverse.mp hc)
  rw [← String.toList_inj, directoryOf, String.toList_ofList, child]
  split
  · next hlast =>
    have hslashes := hdirectory.slashes hlast
    obtain ⟨base, hbase⟩ := List.getLast?_eq_some_iff.mp hlast
    have hfront : ((directory ++ name).toList.reverse.dropWhile (· != '/')).reverse =
        directory.toList := by
      rw [String.toList_append, hskip, hbase]
      simp
    rw [hfront, if_pos (by simpa using hslashes)]
  · next hlast =>
    have hfront : ((directory ++ "/" ++ name).toList.reverse.dropWhile (· != '/')).reverse =
        directory.toList ++ ['/'] := by
      rw [String.toList_append, String.toList_append, hskip]
      simp
    obtain ⟨base, last, hbase⟩ : ∃ base last, directory.toList = base ++ [last] :=
      List.eq_nil_or_concat' _ |>.resolve_left (by simpa using hdirectory.ne_empty)
    have hne : last ≠ '/' := by simpa [hbase] using hlast
    rw [hfront, hbase, if_neg (by simp [hne])]
    simp [hne]

/-- A child ends with its name, and so not with a slash. -/
theorem endsPlain_child (hname : IsName name) : EndsPlain (child directory name) := by
  refine ⟨fun hempty => ?_, fun hlast => absurd hlast (FileTree.getLast?_child hname)⟩
  obtain ⟨base, hchild, -⟩ := FileTree.toList_child directory name
  simp [hempty] at hchild

/-- Such is the text of a path: behind a part, no slash is written. -/
theorem IsSound.endsPlain {path : Path} (h : path.IsSound) : EndsPlain path.render := by
  -- Behind the anchor stands nothing, or a last part, which does not end with a slash.
  have hrender (anchor : String) (hanchor : ∀ c ∈ anchor.toList, c = '/')
      (hne : path.parts = [] → anchor ≠ "") : EndsPlain (anchor ++ joinParts path.parts) := by
    by_cases hparts : path.parts = []
    · have hnone : joinParts path.parts = "" := by rw [hparts]; rfl
      rw [hnone, String.append_empty]
      exact ⟨hne hparts, fun _ => hanchor⟩
    · obtain ⟨c, hlast, hc⟩ :=
        exists_getLast?_joinParts hparts fun part hpart => (h part hpart).isPiece
      have hend : (anchor ++ joinParts path.parts).toList.getLast? = some c := by
        rw [String.toList_append, List.getLast?_append, hlast]
        rfl
      refine ⟨fun hempty => ?_, fun hslash => ?_⟩
      · simp [hempty] at hend
      · exact absurd (Option.some.inj (hend.symm.trans hslash)) hc
  unfold Path.render
  split
  · split
    · exact ⟨by decide, by decide⟩
    · next hparts => simpa using hrender "" (by simp) (by simpa using hparts)
  · exact hrender "/" (by simp) (by simp)
  · exact hrender "//" (by simp) (by simp)

end Path

namespace Place

/-- Where a part of a path leads from a place: a double dot leads to the directory above. -/
def go (place : Place) (part : String) : Place :=
  if part = ".." then place.dropLast else place ++ [part]

/-- In an anchored path, collapsing keeps the names of the place that the parts lead to. -/
theorem collapseParts_eq_foldl_go (parts : List String) :
    Path.collapseParts true parts = parts.foldl go [] := by
  -- No double dot is kept on the way, so each one takes away the name in front of it.
  have hfold (place : Place) (hplace : ".." ∉ place) :
      (parts.foldl (fun reversed part => Path.pushPart true part reversed) place.reverse).reverse =
        parts.foldl go place := by
    induction parts generalizing place with
    | nil => simp
    | cons part rest ih =>
      have hpush : Path.pushPart true part place.reverse = (place.go part).reverse := by
        by_cases hdots : part = ".."
        · subst hdots
          rcases List.eq_nil_or_concat' place with rfl | ⟨above, last, rfl⟩
          · rfl
          · have hlast : last ≠ ".." := fun hlast => hplace (by simp [hlast])
            simp [Path.pushPart, go, hlast]
        · simp [Path.pushPart, go, hdots]
      have hgo : ".." ∉ place.go part := by
        unfold go
        split
        · exact fun hmem => hplace (List.mem_of_mem_dropLast hmem)
        · next hdots => simp [hplace, Ne.symm hdots]
      rw [List.foldl_cons, List.foldl_cons, hpush]
      exact ih (place.go part) hgo
  exact hfold [] List.not_mem_nil

end Place

namespace FileTree

variable {tree : FileTree}

/-- The path is anchored at the root, and no link stands on its way. -/
structure IsPlain (tree : FileTree) (path : Path) : Prop where
  anchor : path.anchor = .root
  notLink : ∀ above, above <+: path.parts →
    ∀ target, tree.entryAt? (Path.collapseParts true above) ≠ some (.link target)

/-- Whether a path is plain can be decided at each of its parts. -/
instance (tree : FileTree) (path : Path) : Decidable (tree.IsPlain path) :=
  decidable_of_iff
    (path.anchor = .root ∧ ∀ above ∈ path.parts.inits,
      (tree.entryAt? (Path.collapseParts true above)).all fun entry =>
        match entry with
        | .link _ => false
        | _ => true)
    ⟨fun ⟨hanchor, hnone⟩ => ⟨hanchor, fun above habove target hlink => by
        have hall := hnone above ((List.mem_inits above path.parts).mpr habove)
        simp [hlink] at hall⟩,
      fun h => ⟨h.anchor, fun above habove => by
        have hlink := h.notLink above ((List.mem_inits above path.parts).mp habove)
        cases hentry : tree.entryAt? (Path.collapseParts true above) with
        | none => rfl
        | some entry =>
          cases entry with
          | link target => exact absurd hentry (hlink target)
          | _ => rfl⟩⟩

/-- No link stands at the places that the parts lead through. -/
theorem IsPlain.notLink_foldl {path : Path} (h : tree.IsPlain path) {above : List String}
    (habove : above <+: path.parts) (target : String) :
    tree.entryAt? (above.foldl Place.go []) ≠ some (.link target) := by
  rw [← Place.collapseParts_eq_foldl_go]
  exact h.notLink above habove target

/-- Parts without links on their way stand for the place that they lead to. -/
theorem settle_parts {room : Nat} {active : List Waypoint} {here : Waypoint} {parts : List String}
    (hparts : ∀ part ∈ parts, IsPart part)
    (hlink : ∀ above, above <+: parts →
      ∀ target, tree.entryAt? (above.foldl Place.go here.place) ≠ some (.link target)) :
    ∃ there, tree.settle room active here parts = .fully there ∧
      there.place = parts.foldl Place.go here.place := by
  induction parts generalizing here with
  | nil => exact ⟨here, by rw [settle], rfl⟩
  | cons part rest ih =>
    obtain ⟨hpart, hrest⟩ := List.forall_mem_cons.mp hparts
    have hlink' (above : List String) (habove : above <+: rest) (target : String) :
        tree.entryAt? (above.foldl Place.go (here.place.go part)) ≠ some (.link target) :=
      hlink (part :: above) ((List.prefix_cons_inj part).mpr habove) target
    rcases hpart with rfl | hname
    · have hup : here.up.place = here.place.go ".." := rfl
      rw [settle, if_neg (by decide), if_pos rfl, List.foldl_cons, ← hup]
      exact ih hrest hlink'
    · have hdown : (here.down part).place = here.place.go part := (if_neg hname.ne_dots).symm
      have hentry (target : String) : tree.entryAt? (here.down part).place ≠ some (.link target) :=
        hdown ▸ hlink' [] List.nil_prefix target
      rw [settle_of_entry hname hentry, List.foldl_cons, ← hdown]
      exact ih hrest (hdown ▸ hlink')

/-- Without links on their way, parts are looked at up to the first one that cannot be looked up. -/
theorem settle_parts_of_null {room : Nat} {active : List Waypoint} {here : Waypoint}
    {parts : List String} (hparts : ∀ part ∈ parts, Path.IsPiece part)
    (hnull : ∃ part ∈ parts, '\x00' ∈ part.toList)
    (hlink : ∀ above, above <+: parts →
      ∀ target, tree.entryAt? (above.foldl Place.go here.place) ≠ some (.link target)) :
    ∃ place, tree.settle room active here parts = .stopped (.file .nullByte place) := by
  induction parts generalizing here with
  | nil =>
    obtain ⟨part, hpart, -⟩ := hnull
    exact absurd hpart List.not_mem_nil
  | cons part rest ih =>
    obtain ⟨hpiece, hrest⟩ := List.forall_mem_cons.mp hparts
    have hlink' (above : List String) (habove : above <+: rest) (target : String) :
        tree.entryAt? (above.foldl Place.go (here.place.go part)) ≠ some (.link target) :=
      hlink (part :: above) ((List.prefix_cons_inj part).mpr habove) target
    have hnull' (hpart : '\x00' ∉ part.toList) : ∃ other ∈ rest, '\x00' ∈ other.toList := by
      obtain ⟨other, hother, hmem⟩ := hnull
      rcases List.mem_cons.mp hother with rfl | hother
      · exact absurd hmem hpart
      · exact ⟨other, hother, hmem⟩
    rw [settle, if_neg (by simp [hpiece.ne_empty, hpiece.ne_dot])]
    by_cases hdots : part = ".."
    · subst hdots
      have hup : here.up.place = here.place.go ".." := rfl
      rw [if_pos rfl]
      exact ih hrest (hnull' (by decide)) (hup ▸ hlink')
    · rw [if_neg hdots]
      by_cases hpart : '\x00' ∈ part.toList
      · exact ⟨_, if_pos hpart⟩
      · have hdown : (here.down part).place = here.place.go part := (if_neg hdots).symm
        rw [if_neg hpart]
        split
        · next target hentry => exact absurd (hdown ▸ hentry) (hlink' [] List.nil_prefix target)
        · exact ih hrest (hnull' hpart) (hdown ▸ hlink')

section Link

variable {room : Nat} {active : List Waypoint} {here : Waypoint} {name target : String}

/-- At a link that is not being replaced already, its target is followed first, provided that there
is room for one more link. -/
theorem settle_link (hname : IsName name)
    (hentry : tree.entryAt? (here.down name).place = some (.link target))
    (hactive : here.down name ∉ active) (hroom : active.length < room) (steps : List String) :
    tree.settle room active here (name :: steps) =
      match tree.settle room (here.down name :: active) (here.start target) (splitSteps target) with
      | .fully there => tree.settle room active there steps
      | .circular path => .circular (keepBehind path steps)
      | .stopped fault => .stopped fault := by
  rw [settle, if_neg (by simp [hname.ne_empty, hname.ne_dot]), if_neg hname.ne_dots,
    if_neg hname.noNull]
  split
  · next other hother =>
    obtain rfl := Entry.link.inj (Option.some.inj (hentry.symm.trans hother))
    exact (dif_neg hactive).trans (if_neg (Nat.not_le.mpr hroom))
  · next hnone => exact absurd hentry (hnone target)

/-- At a link that is being replaced already, the way is circular. The place of the link and the
rest of the way are kept. -/
theorem settle_of_active (hname : IsName name)
    (hentry : tree.entryAt? (here.down name).place = some (.link target))
    (hactive : here.down name ∈ active) (steps : List String) :
    tree.settle room active here (name :: steps) =
      .circular (keepBehind { anchor := .root, parts := (here.down name).place } steps) := by
  rw [settle, if_neg (by simp [hname.ne_empty, hname.ne_dot]), if_neg hname.ne_dots,
    if_neg hname.noNull]
  split
  · exact dif_pos hactive
  · next hnone => exact absurd hentry (hnone target)

/-- A name that is a link stands for what its target stands for. -/
theorem settle_of_link {there : Waypoint} {steps : List String} (hname : IsName name)
    (hentry : tree.entryAt? (here.down name).place = some (.link target))
    (hactive : here.down name ∉ active) (hroom : active.length < room)
    (htarget : tree.settle room (here.down name :: active) (here.start target)
      (splitSteps target) = .fully there) :
    tree.settle room active here (name :: steps) = tree.settle room active there steps := by
  rw [settle_link hname hentry hactive hroom, htarget]

/-- Behind a link that leads back to itself the rest of a path is kept. -/
theorem settle_of_circular {steps : List String} {path : Path} (hname : IsName name)
    (hentry : tree.entryAt? (here.down name).place = some (.link target))
    (hactive : here.down name ∉ active) (hroom : active.length < room)
    (htarget : tree.settle room (here.down name :: active) (here.start target)
      (splitSteps target) = .circular path) :
    tree.settle room active here (name :: steps) = .circular (keepBehind path steps) := by
  rw [settle_link hname hentry hactive hroom, htarget]

end Link

/-- The steps of the text of an anchored path are its parts, behind an empty one. -/
theorem splitSteps_render_of_isPiece {parts : List String} (hne : parts ≠ [])
    (hparts : ∀ part ∈ parts, Path.IsPiece part) :
    splitSteps (Place.render parts) = "" :: parts := by
  have hslash : ∀ piece ∈ parts.map String.toList, '/' ∉ piece := by
    simpa using fun part hpart => (hparts part hpart).noSlash
  rw [splitSteps, Place.toList_render, Text.splitAt, if_pos rfl,
    Text.splitAt_intercalate (by simpa using hne) hslash, List.map_cons, List.map_map]
  simp [Function.comp_def]

/-- Replacing links in the text of an anchored path starts with its first part. -/
theorem settle_text {room : Nat} {parts : List String} (hparts : ∀ part ∈ parts, Path.IsPiece part)
    (here : Place) :
    tree.settle room [] ((Waypoint.ofPlace here).start (Place.render parts))
      (splitSteps (Place.render parts)) = tree.settle room [] .root parts := by
  have hstart : (Waypoint.ofPlace here).start (Place.render parts) = .root := by
    rw [Waypoint.start, Place.toList_render]
    rfl
  rw [hstart]
  by_cases hne : parts = []
  · subst hne
    have hempty : splitSteps (Place.render []) = ["", ""] := by decide +kernel
    simp [hempty, settle]
  · rw [splitSteps_render_of_isPiece hne hparts, settle, if_pos (.inl rfl)]

variable {room : Nat} {path : Path}

/-- A path without links on its way is resolved to what is left of it after collapsing. -/
theorem resolve_of_isPlain (hpath : path.IsSound) (h : tree.IsPlain path) (here : Place) :
    tree.resolve room here path.render = .ok path.collapse := by
  obtain ⟨there, hsettled, hplace⟩ : ∃ there, tree.settle room [] .root path.parts = .fully there ∧
    there.place = path.parts.foldl Place.go [] := settle_parts hpath fun _ => h.notLink_foldl
  obtain ⟨anchor, parts⟩ := path
  obtain rfl : anchor = .root := h.anchor
  have hproper : there.place.IsProper := by
    rw [hplace, ← Place.collapseParts_eq_foldl_go]
    exact hpath.isProper_collapse (by simp)
  have hfree := linkFree_of_settle linkFree_nil hsettled
  have hpieces (part : String) (hpart : part ∈ parts) := (hpath part hpart).isPiece
  have hfound := resolve_of_settle hproper hfree ((settle_text hpieces here).trans hsettled)
  rw [hplace, ← Place.collapseParts_eq_foldl_go] at hfound
  exact hfound

/-- Without links on its way, a path with the character of code zero is refused for it. -/
theorem exists_resolve_eq_nullByte (hpath : ∀ part ∈ path.parts, Path.IsPiece part)
    (h : tree.IsPlain path) (hnull : '\x00' ∈ path.render.toList) (here : Place) :
    ∃ place, tree.resolve room here path.render = .error (.file .nullByte place) := by
  have hpart : ∃ part ∈ path.parts, '\x00' ∈ part.toList := by
    by_contra hnone
    push Not at hnone
    exact Path.null_notMem_render hnone hnull
  obtain ⟨place, hsettled⟩ :
      ∃ place, tree.settle room [] .root path.parts = .stopped (.file .nullByte place) :=
    settle_parts_of_null hpath hpart fun _ => h.notLink_foldl
  obtain ⟨anchor, parts⟩ := path
  obtain rfl : anchor = .root := h.anchor
  have hreal := realPath_eq_error_iff.mpr ((settle_text hpath here).trans hsettled)
  exact ⟨place, resolve_of_realPath_eq_error hreal⟩

end FileTree

end ElmReach
