import ElmReach.FileTree.Resolve
import ElmReach.Proofs.PathText

/-!
# Places and their texts

A place whose names are names of entries is written as an anchored path, and is read back from it:
its names stand between slashes, and none of them is empty, a single dot or a double dot. Collapsing
such a text changes nothing, and the text of an entry is the text of the entry's place.
-/

namespace ElmReach

/-- The name of an entry: it is not empty, is neither of the dots, and holds no slash and no
character of code zero. -/
structure IsName (name : String) : Prop where
  ne_empty : name ≠ ""
  ne_dot : name ≠ "."
  ne_dots : name ≠ ".."
  noSlash : '/' ∉ name.toList
  noNull : '\x00' ∉ name.toList

/-- Whether a text can be the name of an entry can be decided by looking at its characters. -/
instance (name : String) : Decidable (IsName name) :=
  decidable_of_iff
    (name ≠ "" ∧ name ≠ "." ∧ name ≠ ".." ∧ '/' ∉ name.toList ∧ '\x00' ∉ name.toList)
    ⟨fun ⟨hempty, hdot, hdots, hslash, hnull⟩ => ⟨hempty, hdot, hdots, hslash, hnull⟩,
      fun h => ⟨h.ne_empty, h.ne_dot, h.ne_dots, h.noSlash, h.noNull⟩⟩

/-- The name of an entry can stand between the slashes of a path. -/
theorem IsName.isPiece {name : String} (h : IsName name) : Path.IsPiece name :=
  ⟨h.ne_empty, h.ne_dot, h.noSlash⟩

/-- The name of an entry is not empty. -/
theorem IsName.toList_ne_nil {name : String} (h : IsName name) : name.toList ≠ [] :=
  h.isPiece.toList_ne_nil

namespace Place

/-- All names of the place are names of entries. Only such places can be in a file system. -/
def IsProper (place : Place) : Prop :=
  ∀ name ∈ place, IsName name

/-- Whether a place is proper can be decided name by name. -/
instance (place : Place) : Decidable place.IsProper :=
  inferInstanceAs (Decidable (∀ name ∈ place, IsName name))

/-- The top of the tree is a proper place. -/
theorem isProper_nil : IsProper [] := by
  simp [IsProper]

/-- Proper names below a proper place lead to a proper place. -/
theorem IsProper.append {place names : Place} (hplace : place.IsProper) (hnames : IsProper names) :
    IsProper (place ++ names) := by
  intro name hname
  exact (List.mem_append.mp hname).elim (hplace name) (hnames name)

/-- A directory above a proper place is a proper place. -/
theorem IsProper.of_above {above place : Place} (h : place.IsProper) (hbelow : above <+: place) :
    above.IsProper :=
  fun name hname => h name (hbelow.subset hname)

/-- The text of a place is a slash, and its names with a slash between each two of them. -/
theorem toList_render (place : Place) :
    place.render.toList = '/' :: ['/'].intercalate (place.map String.toList) := by
  simp [render, Path.toList_joinParts]

/-- The text of a place is never empty. The top of the tree has a slash. -/
theorem render_ne_empty (place : Place) : place.render ≠ "" := by
  intro h
  have hlist := place.toList_render
  rw [h] at hlist
  simp at hlist

variable {place : Place}

/-- The pieces of the text of a place: nothing in front of the first slash, and then the names. -/
theorem splitAt_render (hne : place ≠ []) (hproper : place.IsProper) :
    Text.splitAt '/' place.render.toList = [] :: place.map String.toList := by
  rw [toList_render]
  have hnames : ∀ piece ∈ place.map String.toList, '/' ∉ piece := by
    simpa using fun name hname => (hproper name hname).noSlash
  rw [Text.splitAt, if_pos rfl, Text.splitAt_intercalate (by simpa using hne) hnames]

/-- The path of the names of a place, from the root on. -/
abbrev toPath (place : Place) : Path :=
  { anchor := .root, parts := place }

/-- A place and the path that it is have the same text. -/
theorem render_toPath (place : Place) : place.toPath.render = place.render :=
  rfl

/-- A place is read back from its text, as a path that starts at the top of the tree. -/
theorem ofString_render (hproper : place.IsProper) :
    Path.ofString place.render = { anchor := .root, parts := place } := by
  rw [← render_toPath]
  exact Path.ofString_render (by simp) fun name hname => (hproper name hname).isPiece

/-- The text of a place is split into an empty step, in front of its first slash, and its names. -/
theorem splitSteps_render (hne : place ≠ []) (hproper : place.IsProper) :
    FileTree.splitSteps place.render = "" :: place := by
  rw [FileTree.splitSteps, splitAt_render hne hproper, List.map_cons, List.map_map]
  simp [Function.comp_def]

/-- The names of a place are found in its text again. -/
theorem namesOf_render (hproper : place.IsProper) : FileTree.namesOf place.render = place := by
  by_cases hne : place = []
  · subst hne
    decide +kernel
  · have hkeep : (place.map String.toList).filter (· ≠ []) = place.map String.toList := by
      refine List.filter_eq_self.mpr fun part hpart => ?_
      obtain ⟨name, hname, rfl⟩ := List.mem_map.mp hpart
      simpa using (hproper name hname).ne_empty
    rw [FileTree.namesOf, splitAt_render hne hproper, List.filter_cons_of_neg (by simp), hkeep,
      List.map_map]
    simp [Function.comp_def]

/-- Each name stands behind a slash, so that the text of a place starts with one. -/
theorem toList_render_of_ne_nil (hne : place ≠ []) :
    place.render.toList = place.flatMap fun name => '/' :: name.toList := by
  rw [toList_render]
  induction place with
  | nil => exact absurd rfl hne
  | cons name rest ih =>
    cases rest with
    | nil => simp
    | cons next names =>
      have hrest := ih (by simp)
      rw [List.flatMap_cons, ← hrest]
      simp [List.intercalate_cons_cons]

/-- The text of a place ends with a slash only at the top of the tree. -/
theorem getLast?_render (hne : place ≠ []) (hproper : place.IsProper) :
    place.render.toList.getLast? ≠ some '/' := by
  obtain ⟨above, name, rfl⟩ := List.eq_nil_or_concat place |>.resolve_left hne
  have hname : IsName name := hproper name (by simp)
  rw [toList_render_of_ne_nil hne]
  intro hlast
  simp only [List.concat_eq_append, List.flatMap_append, List.flatMap_cons, List.flatMap_nil,
    List.append_nil] at hlast
  rw [List.getLast?_append, List.getLast?_cons_of_ne_nil hname.toList_ne_nil,
    Option.or_of_isSome (by simpa using hname.ne_empty)] at hlast
  exact hname.noSlash (List.mem_of_getLast? hlast)

/-- The steps of a place's text are the names of the place. -/
theorem stepsOf_render (hne : place ≠ []) (hproper : place.IsProper) :
    FileTree.stepsOf place.render = place := by
  rw [FileTree.stepsOf, namesOf_render hproper, FileTree.endsWithSlash,
    if_neg (by simpa using getLast?_render hne hproper), List.append_nil]

/-- The text of an entry is that of its place: the text of its directory with its name behind a
slash. -/
theorem child_render (hproper : place.IsProper) (name : String) :
    Path.child place.render name = render (place ++ [name]) := by
  rw [← render_toPath, ← render_toPath]
  exact Path.child_render (by simp) (fun part hpart => (hproper part hpart).isPiece) name

/-- The text of a proper place is one that a file system can be asked for. -/
theorem null_notMem_render (hproper : place.IsProper) : '\x00' ∉ place.render.toList := by
  by_cases hne : place = []
  · subst hne
    decide +kernel
  · rw [toList_render_of_ne_nil hne]
    intro hmem
    obtain ⟨name, hname, hc⟩ := List.mem_flatMap.mp hmem
    rcases List.mem_cons.mp hc with hc | hc
    · exact absurd hc (by decide)
    · exact (hproper name hname).noNull hc

/-- Names without double dots are all kept when a path is collapsed. -/
theorem collapseParts_eq_self (hproper : place.IsProper) :
    Path.collapseParts true place = place := by
  have hfold (kept : List String) (names : Place) (hnames : names.IsProper) :
      names.foldl (fun reversed part => Path.pushPart true part reversed) kept =
        names.reverse ++ kept := by
    induction names generalizing kept with
    | nil => rfl
    | cons name rest ih =>
      have hname := (hnames name List.mem_cons_self).ne_dots
      have hrest : IsProper rest := fun other hother => hnames other (List.mem_cons_of_mem _ hother)
      rw [List.foldl_cons, ih _ hrest]
      simp [Path.pushPart, hname]
  rw [Path.collapseParts, hfold [] place hproper]
  simp

/-- Collapsing changes nothing in the text of an anchored path of names of entries. -/
theorem collapsed_render_path {path : Path} (hanchor : path.anchor ≠ .here)
    (hproper : IsProper path.parts) : Path.collapsed path.render = path.render := by
  have hread := Path.ofString_render hanchor fun name hname => (hproper name hname).isPiece
  rw [Path.collapsed, hread, Path.collapse, decide_eq_true hanchor, collapseParts_eq_self hproper]

/-- The text of a proper place has nothing to collapse. -/
theorem collapsed_render (hproper : place.IsProper) :
    Path.collapsed place.render = place.render := by
  rw [← render_toPath]
  exact collapsed_render_path (by simp) hproper

/-- The text of a proper place has nothing to tidy. -/
theorem tidy_render (hproper : place.IsProper) : Path.tidy place.render = place.render := by
  rw [Path.tidy, ofString_render hproper]
  rfl

end Place

end ElmReach
