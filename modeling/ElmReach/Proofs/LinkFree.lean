import ElmReach.Proofs.PlaceText
import Mathlib.Data.List.Infix

/-!
# Places without links on the way

A place is free of links if no directory above it, nor the place itself, is a link. Searching for
the text of such a place and resolving it both lead to the place itself. The other way round,
resolving a path whose links can all be replaced leads to a place that is free of links.
-/

namespace ElmReach

/-- A part of a path that looks at no file: the name of an entry, or a double dot. -/
def IsPart (part : String) : Prop :=
  part = ".." ∨ IsName part

/-- No part of a path holds the character of code zero, neither a name nor a double dot. -/
theorem IsPart.noNull {part : String} (h : IsPart part) : '\x00' ∉ part.toList := by
  rcases h with rfl | hname
  · decide
  · exact hname.noNull

/-- A step of a path's text: what stands between two slashes, in a text that a file system can be
asked for. -/
def IsStep (step : String) : Prop :=
  '/' ∉ step.toList ∧ '\x00' ∉ step.toList

/-- A step that is not skipped and does not lead upwards is the name of an entry. -/
theorem IsStep.isName {step : String} (h : IsStep step) (hskip : ¬ (step = "" ∨ step = "."))
    (hdots : step ≠ "..") : IsName step :=
  ⟨fun hempty => hskip (.inl hempty), fun hdot => hskip (.inr hdot), hdots, h.1, h.2⟩

/-- The pieces of a text between its slashes are steps. -/
theorem isStep_ofList {text : String} {piece : List Char} (htext : '\x00' ∉ text.toList)
    (hpiece : piece ∈ Text.splitAt '/' text.toList) : IsStep (String.ofList piece) := by
  unfold IsStep
  rw [String.toList_ofList]
  exact ⟨fun hslash => (Text.mem_and_ne_of_mem_splitAt hpiece hslash).2 rfl,
    fun hnull => htext (Text.mem_and_ne_of_mem_splitAt hpiece hnull).1⟩

namespace Path

/-- All parts of the path are names of entries or double dots. Such a path can be looked up, apart
from the length of its names. -/
def IsSound (path : Path) : Prop :=
  ∀ part ∈ path.parts, IsPart part

variable {path next : Path}

/-- A text without the character of code zero is the text of a sound path. -/
theorem isSound_ofString {text : String} (h : '\x00' ∉ text.toList) : (ofString text).IsSound := by
  intro part hpart
  obtain ⟨piece, hpiece, rfl⟩ := List.mem_map.mp hpart
  obtain ⟨hmem, hkeep⟩ := List.mem_filter.mp hpiece
  have hskip : ¬ (String.ofList piece = "" ∨ String.ofList piece = ".") := by
    simpa [← String.toList_inj] using hkeep
  by_cases hdots : String.ofList piece = ".."
  · exact .inl hdots
  · exact .inr ((isStep_ofList h hmem).isName hskip hdots)

/-- Going on from a sound path along another one leads to a sound path. -/
theorem IsSound.append (hpath : path.IsSound) (hnext : next.IsSound) :
    (path.append next).IsSound := by
  unfold Path.append
  split
  · intro part hpart
    exact (List.mem_append.mp hpart).elim (hpath part) (hnext part)
  · exact hnext

/-- Going on from a path that does not start here leads to one that does not start here either. -/
theorem anchor_append_ne_here (hpath : path.anchor ≠ .here) :
    (path.append next).anchor ≠ .here := by
  unfold Path.append
  split
  · exact hpath
  · assumption

/-- Adding a part to a path brings in this part or a double dot, and no other one. -/
theorem mem_of_mem_pushPart {anchored : Bool} {part other : String} {reversed : List String}
    (h : other ∈ pushPart anchored part reversed) :
    other = ".." ∨ other = part ∨ other ∈ reversed := by
  unfold pushPart at h
  split at h
  · exact .inr (List.mem_cons.mp h)
  · split at h
    · split at h
      · exact absurd h List.not_mem_nil
      · exact .inl (List.mem_singleton.mp h)
    · split at h
      · exact (List.mem_cons.mp h).imp_right .inr
      · exact .inr (.inr (List.mem_cons_of_mem _ h))

/-- What holds of the parts that are kept, and is kept by each push, holds of the collapsed
parts. -/
theorem forall_mem_collapseParts {P : String → Prop} {anchored : Bool} {parts : List String}
    (hpush : ∀ part ∈ parts, ∀ reversed, (∀ kept ∈ reversed, P kept) →
      ∀ kept ∈ pushPart anchored part reversed, P kept) :
    ∀ kept ∈ collapseParts anchored parts, P kept := by
  have hfold (reversed : List String) (hreversed : ∀ kept ∈ reversed, P kept) :
      ∀ kept ∈ parts.foldl (fun reversed part => pushPart anchored part reversed) reversed,
        P kept := by
    induction parts generalizing reversed with
    | nil => exact hreversed
    | cons part rest ih =>
      exact ih (fun other hother => hpush other (List.mem_cons_of_mem _ hother)) _
        (hpush part List.mem_cons_self reversed hreversed)
  intro kept hkept
  exact hfold [] (by simp) kept (List.mem_reverse.mp hkept)

/-- No double dots are left in an anchored path that is collapsed. -/
theorem ne_dots_of_mem_collapse (hanchor : path.anchor ≠ .here) :
    ∀ part ∈ path.collapse.parts, part ≠ ".." := by
  refine forall_mem_collapseParts fun part hpart reversed hreversed kept hkept => ?_
  rw [decide_eq_true hanchor] at hkept
  by_cases hdots : part = ".."
  · subst hdots
    cases reversed with
    | nil => exact absurd hkept (by simp [pushPart])
    | cons last rest =>
      have hlast := hreversed last List.mem_cons_self
      have hkept' : kept ∈ rest := by simpa [pushPart, hlast] using hkept
      exact hreversed kept (List.mem_cons_of_mem _ hkept')
  · have hkept' : kept = part ∨ kept ∈ reversed := by simpa [pushPart, hdots] using hkept
    rcases hkept' with rfl | hmem
    · exact hdots
    · exact hreversed kept hmem

/-- The parts of a collapsed path are parts of the path or double dots. -/
theorem mem_of_mem_collapse {part : String} (h : part ∈ path.collapse.parts) :
    part = ".." ∨ part ∈ path.parts := by
  refine forall_mem_collapseParts (P := fun part => part = ".." ∨ part ∈ path.parts)
    (fun other hother reversed hreversed kept hkept => ?_) part h
  rcases mem_of_mem_pushPart hkept with rfl | rfl | hmem
  · exact .inl rfl
  · exact .inr hother
  · exact hreversed kept hmem

/-- Collapsing a sound path leaves a sound path. -/
theorem IsSound.collapse (hpath : path.IsSound) : path.collapse.IsSound := fun part hpart =>
  (mem_of_mem_collapse hpart).elim .inl (hpath part)

/-- What stands in a part of a path also stands in its text. -/
theorem mem_joinParts {parts : List String} {part : String} {c : Char} (hpart : part ∈ parts)
    (hc : c ∈ part.toList) : c ∈ (joinParts parts).toList := by
  unfold joinParts
  induction parts with
  | nil => exact absurd hpart List.not_mem_nil
  | cons first rest ih =>
    cases rest with
    | nil => simpa [List.mem_singleton.mp hpart] using hc
    | cons next others =>
      rw [String.intercalate_cons_cons, String.toList_append, String.toList_append]
      rcases List.mem_cons.mp hpart with rfl | hrest
      · exact List.mem_append_left _ (List.mem_append_left _ hc)
      · exact List.mem_append_right _ (ih hrest)

/-- The text of a path has the characters of its parts. -/
theorem mem_render {part : String} {c : Char} (hpart : part ∈ path.parts) (hc : c ∈ part.toList) :
    c ∈ path.render.toList := by
  have hjoined := mem_joinParts hpart hc
  unfold render
  split
  · rwa [List.isEmpty_eq_false_iff.mpr (List.ne_nil_of_mem hpart), if_neg (by simp)]
  · rw [String.toList_append]
    exact List.mem_append_right _ hjoined
  · rw [String.toList_append]
    exact List.mem_append_right _ hjoined

/-- The parts of an anchored path that is collapsed are names of entries, if a file system can be
asked for its text. -/
theorem isProper_collapse (hanchor : path.anchor ≠ .here)
    (hparts : ∀ part ∈ path.parts, IsPiece part)
    (hnull : '\x00' ∉ path.collapse.render.toList) : Place.IsProper path.collapse.parts := by
  intro part hpart
  have hdots := ne_dots_of_mem_collapse hanchor part hpart
  have hpiece := hparts part ((mem_of_mem_collapse hpart).resolve_left hdots)
  exact ⟨hpiece.ne_empty, hpiece.ne_dot, hdots, hpiece.noSlash,
    fun hmem => hnull (mem_render hpart hmem)⟩

/-- Names of entries are all that is left of an anchored path that is collapsed. -/
theorem IsSound.isProper_collapse (hpath : path.IsSound) (hanchor : path.anchor ≠ .here) :
    Place.IsProper path.collapse.parts := fun part hpart =>
  (hpath.collapse part hpart).resolve_left (ne_dots_of_mem_collapse hanchor part hpart)

/-- Without the character of code zero in the parts, there is none in the text, as a slash is the
only character added. -/
theorem null_notMem_joinParts {parts : List String} (h : ∀ part ∈ parts, '\x00' ∉ part.toList) :
    '\x00' ∉ (joinParts parts).toList := by
  unfold joinParts
  induction parts with
  | nil => simp
  | cons part rest ih =>
    have hpart := h part List.mem_cons_self
    have hrest := ih fun other hother => h other (List.mem_cons_of_mem _ hother)
    cases rest with
    | nil => simpa using hpart
    | cons next others =>
      rw [String.intercalate_cons_cons, String.toList_append, String.toList_append]
      simp only [List.mem_append, not_or]
      exact ⟨⟨hpart, by decide⟩, hrest⟩

/-- A text whose parts can be asked for can be asked for. -/
theorem null_notMem_render (h : ∀ part ∈ path.parts, '\x00' ∉ part.toList) :
    '\x00' ∉ path.render.toList := by
  have hparts := null_notMem_joinParts h
  unfold Path.render
  split
  · split
    · decide
    · exact hparts
  · simpa using hparts
  · simpa using hparts

/-- The text of a sound path is one that a file system can be asked for. -/
theorem IsSound.null_notMem_render (hpath : path.IsSound) : '\x00' ∉ path.render.toList :=
  Path.null_notMem_render fun part hpart => (hpath part hpart).noNull

/-- Collapsing a text brings in no character of code zero. -/
theorem null_notMem_collapsed {text : String} (h : '\x00' ∉ text.toList) :
    '\x00' ∉ (collapsed text).toList :=
  (isSound_ofString h).collapse.null_notMem_render

end Path

namespace FileTree

/-- The names of the entries are names, and the targets of the links are texts, that a file system
can have. -/
structure IsSound (tree : FileTree) : Prop where
  names : ∀ place entry, (place, entry) ∈ tree.entries → Place.IsProper place
  targets : ∀ place target, (place, Entry.link target) ∈ tree.entries → '\x00' ∉ target.toList

variable {tree : FileTree} {place : Place}

/-- What is found at a place other than the top is one of the entries of the tree. -/
theorem mem_entries_of_entryAt? {entry : Entry} (hne : place ≠ [])
    (h : tree.entryAt? place = some entry) : (place, entry) ∈ tree.entries := by
  rw [entryAt?, if_neg hne] at h
  obtain ⟨before, after, hentries, -⟩ := List.lookup_eq_some_iff.mp h
  simp [hentries]

/-- The target of a link of a sound tree is a text that a file system can be asked for. -/
theorem IsSound.target (htree : tree.IsSound) {target : String}
    (h : tree.entryAt? place = some (.link target)) : '\x00' ∉ target.toList := by
  by_cases hne : place = []
  · simp [entryAt?, hne] at h
  · exact htree.targets place target (mem_entries_of_entryAt? hne h)

/-- The entries of a directory in a sound tree have names that a file system can have. -/
theorem IsSound.isName (htree : tree.IsSound) {name : String} (h : name ∈ tree.namesIn place) :
    IsName name := by
  rw [namesIn, List.mem_eraseDups] at h
  obtain ⟨⟨there, entry⟩, hentry, hname⟩ := List.mem_filterMap.mp h
  dsimp only at hname
  split at hname
  · exact htree.names there entry hentry name (List.mem_of_getLast? hname)
  · cases hname

/-- Neither the place nor a directory above it is a link. Such a place is the only one that its text
leads to. -/
def LinkFree (tree : FileTree) (place : Place) : Prop :=
  ∀ above, above <+: place → ∀ target, tree.entryAt? above ≠ some (.link target)

/-- The top of the tree is no link, and nothing is above it. -/
theorem linkFree_nil : tree.LinkFree [] := by
  intro above habove target
  simp [List.prefix_nil.mp habove, entryAt?]

/-- A directory above a place without links is a place without links. -/
theorem LinkFree.of_above {above : Place} (h : tree.LinkFree place) (habove : above <+: place) :
    tree.LinkFree above :=
  fun higher hhigher => h higher (hhigher.trans habove)

/-- An entry that is no link can be put below a place without links. -/
theorem LinkFree.concat {name : String} (h : tree.LinkFree place)
    (hentry : ∀ target, tree.entryAt? (place ++ [name]) ≠ some (.link target)) :
    tree.LinkFree (place ++ [name]) := by
  intro above habove
  rcases List.prefix_concat_iff.mp habove with rfl | habove
  · exact hentry
  · exact h above habove

/-- Whether links are on the way to a place can be decided by looking up each directory above it. -/
instance (tree : FileTree) (place : Place) : Decidable (tree.LinkFree place) :=
  decidable_of_iff
    (∀ above ∈ place.inits, (tree.entryAt? above).all fun entry =>
      match entry with
      | .link _ => false
      | _ => true)
    (forall_congr' fun above => imp_congr (List.mem_inits above place) <| by
      cases tree.entryAt? above with
      | none => simp
      | some entry => cases entry <;> simp)

section Follow

variable {links : Nat} {here names : Place}

/-- The text of a place starts with a slash, so that it is looked up from the top of the tree. -/
theorem startOf_render (here place : Place) : startOf here place.render = [] := by
  rw [startOf, Place.toList_render]
  rfl

/-- The name of a directory leads a search into it. -/
theorem follow_of_directory {name : String} {rest : List String} (hname : IsName name)
    (hshort : name.utf8ByteSize ≤ maxNameBytes)
    (hentry : tree.entryAt? (here ++ [name]) = some .directory) :
    tree.follow links here (name :: rest) = tree.follow links (here ++ [name]) rest := by
  rw [follow, if_neg hname.ne_dot, if_neg hname.ne_dots, if_neg (Nat.not_lt.mpr hshort), hentry]

/-- Names without links lead a search to where they say, or the search fails on its way, but not for
its links. -/
theorem follow_linkFree (hnames : names.IsProper) (hfree : tree.LinkFree (here ++ names)) :
    (∃ entry, tree.follow links here names = .ok { place := here ++ names, entry, links }) ∨
      ∃ error, tree.follow links here names = .error error ∧ error ≠ .tooManyLinks := by
  induction names generalizing here with
  | nil => exact .inl ⟨.directory, by simp [follow]⟩
  | cons name rest ih =>
    have hname := hnames name List.mem_cons_self
    have hrest : Place.IsProper rest := fun other hother =>
      hnames other (List.mem_cons_of_mem _ hother)
    have hsplit : here ++ name :: rest = here ++ [name] ++ rest := by simp
    rw [follow, if_neg hname.ne_dot, if_neg hname.ne_dots]
    split
    · exact .inr ⟨.nameTooLong, rfl, by simp⟩
    · cases hentry : tree.entryAt? (here ++ [name]) with
      | none => exact .inr ⟨.notFound, rfl, by simp⟩
      | some entry =>
        cases entry with
        | directory =>
          rw [hsplit] at hfree ⊢
          exact ih hrest hfree
        | file bytes =>
          dsimp only
          split
          · next hlast => exact .inl ⟨.file bytes, by rw [hlast]⟩
          · exact .inr ⟨.notDirectory, rfl, by simp⟩
        | link target =>
          exact absurd hentry (hfree (here ++ [name]) (by simp) target)

/-- Names of directories, and then the name of an entry that is no link, lead a search to the
entry. -/
theorem follow_eq_ok {entry : Entry} (hne : names ≠ []) (hnames : names.IsProper)
    (hshort : ∀ name ∈ names, name.utf8ByteSize ≤ maxNameBytes)
    (habove : ∀ above, above <+: names → above ≠ names →
      tree.entryAt? (here ++ above) = some .directory)
    (hentry : tree.entryAt? (here ++ names) = some entry) (hlink : ∀ target, entry ≠ .link target) :
    tree.follow links here names = .ok { place := here ++ names, entry, links } := by
  induction names generalizing here with
  | nil => exact absurd rfl hne
  | cons name rest ih =>
    obtain ⟨hname, hrest⟩ := List.forall_mem_cons.mp hnames
    obtain ⟨hbytes, hothers⟩ := List.forall_mem_cons.mp hshort
    rw [follow, if_neg hname.ne_dot, if_neg hname.ne_dots, if_neg (Nat.not_lt.mpr hbytes)]
    by_cases hlast : rest = []
    · subst hlast
      rw [hentry]
      cases entry with
      | directory => simp [follow]
      | file bytes => rfl
      | link target => exact absurd rfl (hlink target)
    · have hsplit (names : Place) : here ++ name :: names = here ++ [name] ++ names := by simp
      have hdirectory : tree.entryAt? (here ++ [name]) = some .directory :=
        habove [name] (by simp) (by simpa using Ne.symm hlast)
      rw [hdirectory, hsplit rest]
      refine ih hlast hrest hothers (fun above hbelow hproper => ?_) (hsplit rest ▸ hentry)
      rw [← hsplit]
      exact habove (name :: above) ((List.prefix_cons_inj name).mpr hbelow) (by simpa using hproper)

/-- Searching for the text of a place without links leads to the place, or fails, but not for its
links. -/
theorem locate_render (hproper : place.IsProper) (hfree : tree.LinkFree place) (here : Place) :
    (∃ entry, tree.locate here place.render = .ok { place, entry, links := maxLinks }) ∨
      ∃ error, tree.locate here place.render = .error error ∧ error ≠ .tooManyLinks := by
  rw [locate, if_neg (Place.null_notMem_render hproper), if_neg place.render_ne_empty,
    startOf_render]
  split
  · exact .inr ⟨.nameTooLong, rfl, by simp⟩
  · by_cases hne : place = []
    · subst hne
      have hsteps : stepsOf (Place.render []) = ["."] := by decide +kernel
      exact .inl ⟨.directory, by simp [hsteps, follow]⟩
    · rw [Place.stepsOf_render hne hproper]
      exact follow_linkFree hproper hfree

/-- Directories lead to the place, at which an entry stands that is no link, and the text of the
place is short enough to be looked up. -/
structure IsAt (tree : FileTree) (place : Place) (entry : Entry) : Prop where
  above : ∀ above ∈ place.inits, above ≠ place → tree.entryAt? above = some .directory
  entry : tree.entryAt? place = some entry
  linkFree : tree.LinkFree place
  name_le : ∀ name ∈ place, name.utf8ByteSize ≤ maxNameBytes
  text_le : place.render.utf8ByteSize ≤ maxPathBytes

/-- Whether an entry stands at a place can be decided by looking up the place and each directory
above it. -/
instance (tree : FileTree) (place : Place) (entry : Entry) : Decidable (tree.IsAt place entry) :=
  decidable_of_iff
    ((∀ above ∈ place.inits, above ≠ place → tree.entryAt? above = some .directory) ∧
      tree.entryAt? place = some entry ∧ tree.LinkFree place ∧
        (∀ name ∈ place, name.utf8ByteSize ≤ maxNameBytes) ∧
          place.render.utf8ByteSize ≤ maxPathBytes)
    ⟨fun ⟨habove, hentry, hfree, hname, htext⟩ => ⟨habove, hentry, hfree, hname, htext⟩,
      fun h => ⟨h.above, h.entry, h.linkFree, h.name_le, h.text_le⟩⟩

/-- Searching for the text of such a place leads to the entry. -/
theorem IsAt.locate_eq {entry : Entry} (h : tree.IsAt place entry) (hproper : place.IsProper)
    (hne : place ≠ []) (here : Place) :
    tree.locate here place.render = .ok { place, entry, links := maxLinks } := by
  have hlong : isTooLong place.render = false := by simpa [isTooLong] using h.text_le
  rw [locate, if_neg (Place.null_notMem_render hproper), if_neg place.render_ne_empty, hlong,
    startOf_render, Place.stepsOf_render hne hproper]
  refine follow_eq_ok hne hproper h.name_le (fun above habove => ?_) h.entry fun target hlink => ?_
  · exact h.above above ((List.mem_inits above place).mpr habove)
  · exact h.linkFree place List.prefix_rfl target (hlink ▸ h.entry)

end Follow

section Locate

variable {links : Nat} {here : Place} {steps : List String} {path : String}

/-- A search that has started looks up names only, none of which it takes apart. -/
theorem follow_ne_nullByte : tree.follow links here steps ≠ .error .nullByte := by
  fun_induction follow tree links here steps <;> simp_all

/-- No file system can be asked for a text with a character of code zero, and for no other
reason. -/
theorem locate_eq_nullByte_iff :
    tree.locate here path = .error .nullByte ↔ '\x00' ∈ path.toList := by
  unfold locate
  split
  · next hnull => simp [hnull]
  · next hnull =>
    simp only [hnull, iff_false]
    split
    · simp
    · split
      · simp
      · exact follow_ne_nullByte

end Locate

section Settle

variable {room : Nat} {active : List Waypoint} {here there : Waypoint} {steps : List String}

/-- A name that is no link stands for itself, whether or not anything stands at its place. -/
theorem settle_of_entry {name : String} (hname : IsName name)
    (hentry : ∀ target, tree.entryAt? (here.down name).place ≠ some (.link target)) :
    tree.settle room active here (name :: steps) =
      tree.settle room active (here.down name) steps := by
  rw [settle, if_neg (by simp [hname.ne_empty, hname.ne_dot]), if_neg hname.ne_dots,
    if_neg hname.noNull]
  split
  · next target hlink => exact absurd hlink (hentry target)
  · rfl

/-- Names without links stand for themselves, one after the other. This is an induction along the
names. -/
theorem settle_linkFree {names : Place} (hnames : names.IsProper)
    (hfree : tree.LinkFree (here.place ++ names)) :
    ∃ there, tree.settle room active here names = .fully there ∧
      there.place = here.place ++ names := by
  induction names generalizing here with
  | nil => exact ⟨here, by simp [settle], by simp⟩
  | cons name rest ih =>
    obtain ⟨hname, hrest⟩ := List.forall_mem_cons.mp hnames
    have hsplit : here.place ++ name :: rest = (here.down name).place ++ rest := by
      simp [Waypoint.down]
    have hentry (target : String) :
        tree.entryAt? (here.down name).place ≠ some (.link target) :=
      hfree _ (by simp [Waypoint.down]) target
    rw [settle_of_entry hname hentry, hsplit]
    exact ih hrest (hsplit ▸ hfree)

/-- The text of a place without links stands for the place, from wherever it is followed. -/
theorem settle_render (hproper : place.IsProper) (hfree : tree.LinkFree place) :
    ∃ there, tree.settle room active (here.start place.render) (splitSteps place.render) =
      .fully there ∧ there.place = place := by
  have hstart : here.start place.render = .root := by
    rw [Waypoint.start, Place.toList_render]
    rfl
  rw [hstart]
  by_cases hne : place = []
  · subst hne
    have hsteps : splitSteps (Place.render []) = ["", ""] := by decide +kernel
    exact ⟨.root, by simp [hsteps, settle], rfl⟩
  · rw [Place.splitSteps_render hne hproper, settle, if_pos (.inl rfl)]
    exact settle_linkFree hproper hfree

/-- What replacing the links of a path leaves is looked up once more. -/
theorem resolve_of_realPath {here : Place} {path : String} {found : Path}
    (h : tree.realPath room here path = .ok found) :
    tree.resolve room here path =
      match tree.locate [] found.render with
      | .error .tooManyLinks => .error (.linkLoop found.render)
      | .error .nullByte => .error (.file .nullByte found.render)
      | _ => .ok found := by
  rw [resolve, h]
  rfl

/-- A path whose links can all be replaced stands for where it leads. -/
theorem resolve_of_settle {here : Place} {path : String} (hproper : there.place.IsProper)
    (hfree : tree.LinkFree there.place)
    (h : tree.settle room [] ((Waypoint.ofPlace here).start path) (splitSteps path) =
      .fully there) :
    tree.resolve room here path = .ok { anchor := .root, parts := there.place } := by
  have hreal : tree.realPath room here path = .ok { anchor := .root, parts := there.place } := by
    rw [realPath, h]
  have hrender : Path.render { anchor := .root, parts := there.place } = there.place.render := rfl
  have hnull : tree.locate [] there.place.render ≠ .error .nullByte :=
    locate_eq_nullByte_iff.not.mpr (Place.null_notMem_render hproper)
  rw [resolve_of_realPath hreal, hrender]
  rcases locate_render hproper hfree [] with ⟨entry, hlocate⟩ | ⟨error, hlocate, hlinks⟩
  · rw [hlocate]
  · rw [hlocate] at hnull ⊢
    split
    · next h => exact absurd (Except.error.inj h) hlinks
    · next h => exact absurd h hnull
    · rfl

/-- A place without links is what its text stands for, so that resolving what was resolved changes
nothing. -/
theorem resolve_render (hproper : place.IsProper) (hfree : tree.LinkFree place) (here : Place) :
    tree.resolve room here place.render = .ok { anchor := .root, parts := place } := by
  obtain ⟨there, hsettled, hplace⟩ : ∃ there,
      tree.settle room [] ((Waypoint.ofPlace here).start place.render) (splitSteps place.render) =
        .fully there ∧ there.place = place := settle_render hproper hfree
  subst hplace
  exact resolve_of_settle hproper hfree hsettled

/-- The way to a link's target starts at the top or where the link stands, and there are no links
above either of them. -/
theorem linkFree_start (hhere : tree.LinkFree here.place) (target : String) :
    tree.LinkFree (here.start target).place := by
  unfold Waypoint.start
  split
  · exact linkFree_nil
  · exact hhere

/-- If all links on a way can be replaced, no links are left. The induction follows the replacing;
at a link, both its target and the rest of the way keep this. -/
theorem linkFree_of_settle (hhere : tree.LinkFree here.place)
    (h : tree.settle room active here steps = .fully there) : tree.LinkFree there.place := by
  fun_induction settle tree room active here steps generalizing there with
  | case1 active here =>
    cases h
    exact hhere
  | case2 active here step rest hskip ih => exact ih hhere h
  | case3 active here rest hskip ih =>
    exact ih (hhere.of_above <| List.dropLast_prefix here.place) h
  | case4 => cases h
  | case5 => cases h
  | case6 => cases h
  | case7 active here step rest hskip hdots hnull target hentry hactive hroom middle hmiddle
      ihtarget ihrest =>
    exact ihrest (ihtarget (linkFree_start hhere target) hmiddle) h
  | case8 => cases h
  | case9 => cases h
  | case10 active here step rest hskip hdots hnull hentry ih =>
    exact ih (hhere.concat hentry) h

/-- The result of replacing links consists of pieces of texts. If all links could be replaced, each
piece has been looked up, so that it is a name that a file system can have. -/
def Settled.IsSound : Settled → Prop
  | .fully there => there.place.IsProper
  | .circular path => path.anchor ≠ .here ∧ ∀ part ∈ path.parts, Path.IsPiece part
  | .stopped _ => True

/-- A step is a text between two slashes, so that it holds none. -/
theorem noSlash_of_mem_splitSteps {text step : String} (h : step ∈ splitSteps text) :
    '/' ∉ step.toList := by
  obtain ⟨piece, hpiece, rfl⟩ := List.mem_map.mp h
  rw [String.toList_ofList]
  exact fun hslash => (Text.mem_and_ne_of_mem_splitAt hpiece hslash).2 rfl

/-- The steps that are kept behind a circular link are split like the text of any path, and so are
pieces. -/
theorem forall_isPiece_keepBehind {path : Path} (hpath : ∀ part ∈ path.parts, Path.IsPiece part) :
    ∀ part ∈ (keepBehind path steps).parts, Path.IsPiece part := by
  unfold keepBehind Path.append
  split
  · intro part hpart
    exact (List.mem_append.mp hpart).elim (hpath part) Path.isPiece_of_mem_ofString
  · exact fun part => Path.isPiece_of_mem_ofString

/-- The way to a link's target starts at a proper place. -/
theorem isProper_start (hhere : here.place.IsProper) (target : String) :
    (here.start target).place.IsProper := by
  unfold Waypoint.start
  split
  · exact Place.isProper_nil
  · exact hhere

/-- Going down to a name that a file system can have leads to a proper place. -/
theorem isProper_down (hhere : here.place.IsProper) {name : String} (hname : IsName name) :
    (here.down name).place.IsProper :=
  hhere.append fun _ hother => List.mem_singleton.mp hother ▸ hname

/-- Replacing links keeps the names such as a file system can have. A name comes from the way itself
or from the target of a link. -/
theorem isSound_settle (hhere : here.place.IsProper) (hsteps : ∀ step ∈ steps, '/' ∉ step.toList) :
    (tree.settle room active here steps).IsSound := by
  fun_induction settle tree room active here steps with
  | case1 active here => exact hhere
  | case2 active here step rest hskip ih =>
    exact ih hhere (List.forall_mem_cons.mp hsteps).2
  | case3 active here rest hskip ih =>
    have hup := hhere.of_above <| List.dropLast_prefix here.place
    exact ih hup (List.forall_mem_cons.mp hsteps).2
  | case4 => trivial
  | case5 active here step rest hskip hdots hnull target hentry hactive =>
    obtain ⟨hslash, -⟩ := List.forall_mem_cons.mp hsteps
    have hplace := isProper_down hhere (IsStep.isName ⟨hslash, hnull⟩ hskip hdots)
    exact ⟨Path.anchor_append_ne_here (by simp),
      forall_isPiece_keepBehind fun part hpart => (hplace part hpart).isPiece⟩
  | case6 => trivial
  | case7 active here step rest hskip hdots hnull target hentry hactive hroom middle hmiddle
      ihtarget ihrest =>
    have hplace := ihtarget (isProper_start hhere target) fun _ => noSlash_of_mem_splitSteps
    rw [hmiddle] at hplace
    exact ihrest hplace (List.forall_mem_cons.mp hsteps).2
  | case8 active here step rest hskip hdots hnull target hentry hactive hroom path hpath ihtarget =>
    have hsound := ihtarget (isProper_start hhere target) fun _ => noSlash_of_mem_splitSteps
    rw [hpath] at hsound
    exact ⟨Path.anchor_append_ne_here hsound.1, forall_isPiece_keepBehind hsound.2⟩
  | case9 => trivial
  | case10 active here step rest hskip hdots hnull hentry ih =>
    obtain ⟨hslash, hrest⟩ := List.forall_mem_cons.mp hsteps
    exact ih (isProper_down hhere (IsStep.isName ⟨hslash, hnull⟩ hskip hdots)) hrest

/-- Replacing links stops only for a name that cannot be looked up, or for want of room. -/
theorem fault_eq_of_settle {fault : Fault}
    (h : tree.settle room active here steps = .stopped fault) :
    fault = .tooDeep ∨ ∃ place, fault = .file .nullByte place := by
  fun_induction settle tree room active here steps with
  | case1 => cases h
  | case2 active here step rest hskip ih => exact ih h
  | case3 active here rest hskip ih => exact ih h
  | case4 => cases h; exact .inr ⟨_, rfl⟩
  | case5 => cases h
  | case6 => cases h; exact .inl rfl
  | case7 active here step rest hskip hdots hnull target hentry hactive hroom middle hmiddle
      ihtarget ihrest => exact ihrest h
  | case8 => cases h
  | case9 active here step rest hskip hdots hnull target hentry hactive hroom other hother
      ihtarget =>
    cases h
    exact ihtarget hother
  | case10 active here step rest hskip hdots hnull hentry ih => exact ih h

/-- What is left of a path is a text that a file system can be asked for, or the way to it is
stopped for another reason. -/
def Settled.IsAskable : Settled → Prop
  | .fully _ => True
  | .circular path => ∀ part ∈ path.parts, '\x00' ∉ part.toList
  | .stopped fault => ∀ place, fault ≠ .file .nullByte place

/-- The steps of a text without the character of code zero do not hold it either. -/
theorem noNull_of_mem_splitSteps {text step : String} (htext : '\x00' ∉ text.toList)
    (h : step ∈ splitSteps text) : '\x00' ∉ step.toList := by
  obtain ⟨piece, hpiece, rfl⟩ := List.mem_map.mp h
  exact (isStep_ofList htext hpiece).2

/-- The steps that are kept behind a circular link bring in no character of code zero. -/
theorem noNull_keepBehind {path : Path} (hpath : ∀ part ∈ path.parts, '\x00' ∉ part.toList)
    (hsteps : ∀ step ∈ steps, '\x00' ∉ step.toList) :
    ∀ part ∈ (keepBehind path steps).parts, '\x00' ∉ part.toList := by
  have hrest : (Path.ofString (Path.joinParts steps)).IsSound :=
    Path.isSound_ofString (Path.null_notMem_joinParts hsteps)
  unfold keepBehind Path.append
  split
  · intro part hpart
    exact (List.mem_append.mp hpart).elim (hpath part) fun hkept => (hrest part hkept).noNull
  · exact fun part hpart => (hrest part hpart).noNull

/-- Where neither the steps nor the links hold the character of code zero, no name on the way
does. -/
theorem isAskable_settle (htree : tree.IsSound) (hhere : here.place.IsProper)
    (hsteps : ∀ step ∈ steps, '\x00' ∉ step.toList) (hslash : ∀ step ∈ steps, '/' ∉ step.toList) :
    (tree.settle room active here steps).IsAskable := by
  fun_induction settle tree room active here steps with
  | case1 => trivial
  | case2 active here step rest hskip ih =>
    exact ih hhere (List.forall_mem_cons.mp hsteps).2 (List.forall_mem_cons.mp hslash).2
  | case3 active here rest hskip ih =>
    have hup := hhere.of_above <| List.dropLast_prefix here.place
    exact ih hup (List.forall_mem_cons.mp hsteps).2 (List.forall_mem_cons.mp hslash).2
  | case4 active here step rest hskip hdots hnull =>
    exact absurd hnull (List.forall_mem_cons.mp hsteps).1
  | case5 active here step rest hskip hdots hnull target hentry hactive =>
    refine noNull_keepBehind (fun part hpart => ?_) (List.forall_mem_cons.mp hsteps).2
    rcases List.mem_append.mp hpart with habove | hlast
    · exact (hhere part habove).noNull
    · exact List.mem_singleton.mp hlast ▸ hnull
  | case6 => simp [Settled.IsAskable]
  | case7 active here step rest hskip hdots hnull target hentry hactive hroom middle hmiddle
      ihtarget ihrest =>
    have hplace : (tree.settle room (here.down step :: active) (here.start target)
        (splitSteps target)).IsSound :=
      isSound_settle (isProper_start hhere target) fun _ => noSlash_of_mem_splitSteps
    rw [hmiddle] at hplace
    exact ihrest hplace (List.forall_mem_cons.mp hsteps).2 (List.forall_mem_cons.mp hslash).2
  | case8 active here step rest hskip hdots hnull target hentry hactive hroom path hpath ihtarget =>
    have hkept := ihtarget (isProper_start hhere target)
      (fun _ => noNull_of_mem_splitSteps (htree.target hentry))
      fun _ => noSlash_of_mem_splitSteps
    rw [hpath] at hkept
    exact noNull_keepBehind hkept (List.forall_mem_cons.mp hsteps).2
  | case9 active here step rest hskip hdots hnull target hentry hactive hroom fault hfault
      ihtarget =>
    have hstopped := ihtarget (isProper_start hhere target)
      (fun _ => noNull_of_mem_splitSteps (htree.target hentry))
      fun _ => noSlash_of_mem_splitSteps
    rwa [hfault] at hstopped
  | case10 active here step rest hskip hdots hnull hentry ih =>
    obtain ⟨hnoSlash, hrest⟩ := List.forall_mem_cons.mp hslash
    have hname : IsName step := IsStep.isName ⟨hnoSlash, hnull⟩ hskip hdots
    exact ih (isProper_down hhere hname) (List.forall_mem_cons.mp hsteps).2 hrest

end Settle

section Resolve

variable {room : Nat} {here : Place} {path : String} {found : Path}

/-- A path is not replaced by a real one, and ends with a fault, exactly if following its steps is
stopped by this fault. -/
theorem realPath_eq_error_iff {fault : Fault} :
    tree.realPath room here path = .error fault ↔
      tree.settle room [] ((Waypoint.ofPlace here).start path) (splitSteps path) =
        .stopped fault := by
  rw [realPath]
  split <;> simp_all

/-- A fault on the way is not caught where a path is resolved; only circular links are. -/
theorem resolve_of_realPath_eq_error {fault : Fault}
    (h : tree.realPath room here path = .error fault) :
    tree.resolve room here path = .error fault := by
  rw [resolve, h]
  rfl

/-- A path stands for what replacing its links leaves, provided that a file system can be asked for
that and finds no link in it that leads back to itself. -/
theorem resolve_eq_ok_iff :
    tree.resolve room here path = .ok found ↔
      tree.realPath room here path = .ok found ∧ '\x00' ∉ found.render.toList ∧
        tree.locate [] found.render ≠ .error .tooManyLinks := by
  have hlocate : tree.locate [] found.render = .error .nullByte ↔ '\x00' ∈ found.render.toList :=
    locate_eq_nullByte_iff
  rw [← hlocate]
  cases hreal : tree.realPath room here path with
  | error fault => simp [resolve_of_realPath_eq_error hreal]
  | ok real =>
    rw [resolve_of_realPath hreal]
    constructor
    · intro h
      split at h
      · cases h
      · cases h
      · next hlinks hnull =>
        obtain rfl := Except.ok.inj h
        exact ⟨rfl, hnull, hlinks⟩
    · rintro ⟨hreal, hnull, hlinks⟩
      obtain rfl := Except.ok.inj hreal
      split
      · next h => exact absurd h hlinks
      · next h => exact absurd h hnull
      · rfl

/-- What a path stands for is anchored and has no dots among its names. This holds also if a
circular link is on the way, as what is left is collapsed then. -/
theorem isProper_of_resolve (hhere : here.IsProper) (h : tree.resolve room here path = .ok found) :
    found.anchor ≠ .here ∧ Place.IsProper found.parts := by
  obtain ⟨hreal, hnull, -⟩ := resolve_eq_ok_iff.mp h
  have hstart : ((Waypoint.ofPlace here).start path).place.IsProper := isProper_start hhere path
  have hsound : (tree.settle room [] _ (splitSteps path)).IsSound :=
    isSound_settle hstart fun _ => noSlash_of_mem_splitSteps
  rw [realPath] at hreal
  split at hreal
  · next there hsettled =>
    rw [hsettled] at hsound
    obtain rfl := Except.ok.inj hreal
    exact ⟨by simp, hsound⟩
  · next path hsettled =>
    rw [hsettled] at hsound
    obtain rfl := Except.ok.inj hreal
    exact ⟨hsound.1, Path.isProper_collapse hsound.1 hsound.2 hnull⟩
  · cases hreal

/-- Where neither the path nor the links hold the character of code zero, no path is refused for
it. -/
theorem resolve_ne_nullByte (htree : tree.IsSound) (hhere : here.IsProper)
    (hpath : '\x00' ∉ path.toList) (place : String) :
    tree.resolve room here path ≠ .error (.file .nullByte place) := by
  have hstart : ((Waypoint.ofPlace here).start path).place.IsProper := isProper_start hhere path
  have haskable : (tree.settle room [] _ (splitSteps path)).IsAskable :=
    isAskable_settle htree hstart (fun _ => noNull_of_mem_splitSteps hpath)
      fun _ => noSlash_of_mem_splitSteps
  have hsound : (tree.settle room [] _ (splitSteps path)).IsSound :=
    isSound_settle hstart fun _ => noSlash_of_mem_splitSteps
  cases hreal : tree.realPath room here path with
  | error fault =>
    rw [realPath_eq_error_iff.mp hreal] at haskable
    rw [resolve_of_realPath_eq_error hreal]
    exact fun heq => haskable place (Except.error.inj heq)
  | ok found =>
    have hnull : ∀ part ∈ found.parts, '\x00' ∉ part.toList := by
      rw [realPath] at hreal
      split at hreal
      · next there hsettled =>
        obtain rfl := Except.ok.inj hreal
        rw [hsettled] at hsound
        exact fun part hpart => (hsound part hpart).noNull
      · next kept hsettled =>
        obtain rfl := Except.ok.inj hreal
        rw [hsettled] at haskable
        intro part hpart
        rcases Path.mem_of_mem_collapse hpart with rfl | hmem
        · decide
        · exact haskable part hmem
      · cases hreal
    have hlocate : tree.locate [] found.render ≠ .error .nullByte :=
      locate_eq_nullByte_iff.not.mpr (Path.null_notMem_render hnull)
    rw [resolve_of_realPath hreal]
    split
    · simp
    · next h => exact absurd h hlocate
    · simp

/-- A path can be resolved, or it fails for one of three reasons: links that lead in a circle, links
for which there is no room, and a name that no file system can be asked for. -/
theorem fault_eq_of_resolve {fault : Fault} (h : tree.resolve room here path = .error fault) :
    (∃ found, fault = .linkLoop found) ∨ fault = .tooDeep ∨
      ∃ place, fault = .file .nullByte place := by
  cases hreal : tree.realPath room here path with
  | error other =>
    obtain rfl := Except.error.inj ((resolve_of_realPath_eq_error hreal).symm.trans h)
    exact .inr (fault_eq_of_settle (realPath_eq_error_iff.mp hreal))
  | ok found =>
    rw [resolve_of_realPath hreal] at h
    split at h
    · exact .inl ⟨_, (Except.error.inj h).symm⟩
    · exact .inr (.inr ⟨_, (Except.error.inj h).symm⟩)
    · cases h

/-- If all links on the way of a path can be replaced, it stands for a place without links. -/
theorem linkFree_of_resolve {there : Waypoint} (hhere : tree.LinkFree here)
    (hsettled : tree.settle room [] ((Waypoint.ofPlace here).start path) (splitSteps path) =
      .fully there)
    (h : tree.resolve room here path = .ok found) :
    found.anchor = .root ∧ tree.LinkFree found.parts := by
  obtain ⟨hreal, -⟩ := resolve_eq_ok_iff.mp h
  have hstart : tree.LinkFree ((Waypoint.ofPlace here).start path).place :=
    linkFree_start hhere path
  rw [realPath, hsettled] at hreal
  obtain rfl := Except.ok.inj hreal
  exact ⟨rfl, linkFree_of_settle hstart hsettled⟩

end Resolve

end FileTree

end ElmReach
