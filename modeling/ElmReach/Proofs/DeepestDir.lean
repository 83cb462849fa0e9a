import ElmReach.Project.Basic
import ElmReach.Proofs.PlaceText
import ElmReach.Proofs.TracedOutcome

/-!
# The deepest directory of a file

The directories that hold a file are written with the first names of the file's path, so no two of
them have the same length. The deepest of some directories that hold a file is therefore unique, and
it depends only on the set of the directories.
-/

namespace ElmReach

namespace Place

/-- More names make a longer text. So of two directories above a file, the deeper one has the longer
text. -/
theorem length_render_lt {place names : Place} (hne : names ≠ []) (hnames : "" ∉ names) :
    place.render.length < (render (place ++ names)).length := by
  obtain ⟨name, rest, rfl⟩ := List.exists_cons_of_ne_nil hne
  have hname : 0 < name.toList.length := by
    refine List.length_pos_iff.mpr fun hnil => hnames ?_
    rw [← String.toList_eq_nil_iff.mp hnil]
    exact List.mem_cons_self
  have hwhole := toList_render_of_ne_nil (show place ++ name :: rest ≠ [] by simp)
  rw [← String.length_toList, ← String.length_toList, hwhole, List.flatMap_append,
    List.flatMap_cons]
  by_cases hplace : place = []
  · subst hplace
    have hroot : (render []).toList.length = 1 := by decide +kernel
    simp only [hroot, List.flatMap_nil, List.nil_append, List.length_append, List.length_cons]
    omega
  · rw [toList_render_of_ne_nil hplace]
    simp only [List.length_append, List.length_cons]
    omega

/-- A place above another one is known by the length of its text. -/
theorem eq_of_length_render_eq {place above other : Place} (hplace : "" ∉ place)
    (habove : above <+: place) (hother : other <+: place)
    (h : above.render.length = other.render.length) : above = other := by
  have hlt {lower upper : Place} (hlower : lower <+: upper) (hupper : upper <+: place)
      (hne : lower ≠ upper) : lower.render.length < upper.render.length := by
    obtain ⟨names, rfl⟩ := hlower
    refine length_render_lt (by simpa using hne) fun hempty => hplace ?_
    exact hupper.subset (List.mem_append_right _ hempty)
  by_contra hne
  rcases List.prefix_or_prefix_of_prefix habove hother with hlower | hlower
  · exact absurd h (Nat.ne_of_lt (hlt hlower hother hne))
  · exact absurd h (Nat.ne_of_gt (hlt hlower habove (Ne.symm hne)))

end Place

namespace Path

/-- The common parts are the first parts of the second path as well as of the first one. -/
theorem commonParts_above (parts others : List String) : commonParts parts others <+: others := by
  fun_induction commonParts parts others with
  | case1 parts name others ih => exact (List.prefix_cons_inj name).mpr ih
  | case2 => exact List.nil_prefix
  | case3 => exact List.nil_prefix

/-- No part of a path that is read is empty, so a joined text can be taken apart again. -/
theorem empty_notMem_ofString (text : String) : "" ∉ (ofString text).parts := by
  intro hmem
  obtain ⟨piece, hpiece, hempty⟩ := List.mem_map.mp hmem
  have hkeep := (List.mem_filter.mp hpiece).2
  simp_all [← String.toList_inj]

variable {directory other file : String}

/-- A directory that holds a file is written with the first names of the file's path. -/
theorem exists_of_holds (h : holds? directory file = some true) :
    ∃ above, above <+: (ofString file).parts ∧
      directory = if isAnchored file then Place.render above else joinParts above := by
  unfold holds? common? at h
  split at h
  · next hanchored =>
    rw [Option.map_some, Option.some.injEq, beq_iff_eq] at h
    refine ⟨_, commonParts_above (ofString directory).parts _, ?_⟩
    rw [← hanchored]
    exact h.symm
  · cases h

/-- No two directories of the same length hold a file. -/
theorem eq_of_holds (h : holds? directory file = some true) (hother : holds? other file = some true)
    (hlength : directory.length = other.length) : directory = other := by
  obtain ⟨above, habove, rfl⟩ := exists_of_holds h
  obtain ⟨higher, hhigher, rfl⟩ := exists_of_holds hother
  have hjoin (place : Place) : place.render.length = (joinParts place).length + 1 := by
    rw [Place.render, String.length_append, Nat.add_comm]
    rfl
  have hsame : above = higher := by
    refine Place.eq_of_length_render_eq (empty_notMem_ofString file) habove hhigher ?_
    split at hlength
    · exact hlength
    · rw [hjoin, hjoin, hlength]
  rw [hsame]

end Path

namespace Project

/-- A list has a longest text unless it is empty. This is when a file has no source directory. -/
theorem longest?_eq_none_iff {texts : List String} : longest? texts = none ↔ texts = [] := by
  cases texts with
  | nil => simp [longest?]
  | cons first rest =>
    rw [longest?]
    split <;> simp

/-- The longest text is one of the list, and no other one is longer. -/
theorem mem_of_longest? {texts : List String} {text : String} (h : longest? texts = some text) :
    text ∈ texts ∧ ∀ other ∈ texts, other.length ≤ text.length := by
  induction texts generalizing text with
  | nil => cases h
  | cons first rest ih =>
    rw [longest?] at h
    split at h
    · next longest hlongest =>
      obtain ⟨hmem, hmax⟩ := ih hlongest
      obtain rfl := Option.some.inj h
      split
      · next hlt =>
        refine ⟨List.mem_cons_of_mem _ hmem, fun other hother => ?_⟩
        rcases List.mem_cons.mp hother with rfl | hother
        · exact Nat.le_of_lt hlt
        · exact hmax other hother
      · next hle =>
        refine ⟨List.mem_cons_self, fun other hother => ?_⟩
        rcases List.mem_cons.mp hother with rfl | hother
        · exact Nat.le_refl _
        · exact Nat.le_trans (hmax other hother) (Nat.le_of_not_lt hle)
    · next hnone =>
      obtain rfl := Option.some.inj h
      obtain rfl := longest?_eq_none_iff.mp hnone
      simp

/-- If no two texts have the same length, only the set of the texts matters. -/
theorem longest?_congr {texts others : List String} (h : ∀ text, text ∈ texts ↔ text ∈ others)
    (hlength : ∀ text ∈ texts, ∀ other ∈ texts, text.length = other.length → text = other) :
    longest? texts = longest? others := by
  cases hlongest : longest? texts with
  | none =>
    obtain rfl := longest?_eq_none_iff.mp hlongest
    have hnil : others = [] := List.eq_nil_iff_forall_not_mem.mpr fun text htext => by
      simpa using (h text).mpr htext
    rw [hnil]
    rfl
  | some text =>
    obtain ⟨htext, hmax⟩ := mem_of_longest? hlongest
    cases hlongest' : longest? others with
    | none =>
      rw [longest?_eq_none_iff.mp hlongest'] at h
      exact absurd ((h text).mp htext) List.not_mem_nil
    | some other =>
      obtain ⟨hother, hmax'⟩ := mem_of_longest? hlongest'
      have hother' := (h other).mpr hother
      have hle := hmax other hother'
      have hge := hmax' text ((h text).mp htext)
      rw [hlength text htext other hother' (by omega)]

section Containing

variable {directories others : List String} {file : String}

/-- Whether a directory holds a file; the two must be comparable. This is decided by their common
parts, as texts. -/
def holding (file directory : String) : Except Fault Bool :=
  match Path.holds? directory file with
  | some answer => .ok answer
  | none => .error .mixedPaths

/-- The containing directory is the longest one of those that hold the file, if all of them can be
compared with it. -/
theorem containingDir_eq (directories : List String) (file : String) :
    containingDir directories file = longest? <$> directories.filterM (holding file) := by
  have hholding : holding file = fun directory =>
      match Path.holds? directory file with
      | some answer => pure answer
      | none => throw .mixedPaths := rfl
  rw [hholding]
  rfl

/-- If the file cannot be compared with one of the directories, there is no answer for any of them:
all are compared first. -/
theorem containingDir_eq_error
    (h : ∃ directory ∈ directories, Path.holds? directory file = none) :
    containingDir directories file = .error .mixedPaths := by
  have hfilter : directories.filterM (holding file) = .error .mixedPaths := by
    refine Results.filterM_eq_error (fun directory _ => ?_) ?_
    · unfold holding
      split
      · exact .inr ⟨_, rfl⟩
      · exact .inl rfl
    · obtain ⟨directory, hdirectory, hnone⟩ := h
      exact ⟨directory, hdirectory, by rw [holding, hnone]⟩
  rw [containingDir_eq, hfilter]
  rfl

/-- If the file can be compared with all directories, the answer is the longest one that holds it,
if any does. -/
theorem containingDir_eq_ok
    (h : ¬ ∃ directory ∈ directories, Path.holds? directory file = none) :
    containingDir directories file =
      .ok (longest? (directories.filter fun directory =>
        (Path.holds? directory file).getD false)) := by
  have hfilter (directory : String) (hdirectory : directory ∈ directories) :
      holding file directory = .ok ((Path.holds? directory file).getD false) := by
    unfold holding
    split
    · next answer hanswer => rw [hanswer, Option.getD_some]
    · next hnone => exact absurd ⟨directory, hdirectory, hnone⟩ h
  rw [containingDir_eq, Results.filterM_eq_ok hfilter]
  rfl

/-- The deepest directory that holds a file depends only on the set of the directories. -/
theorem containingDir_congr (h : ∀ directory, directory ∈ directories ↔ directory ∈ others)
    (file : String) : containingDir directories file = containingDir others file := by
  have hmixed : (∃ directory ∈ directories, Path.holds? directory file = none) ↔
      ∃ directory ∈ others, Path.holds? directory file = none :=
    exists_congr fun directory => and_congr_left' (h directory)
  by_cases hmix : ∃ directory ∈ directories, Path.holds? directory file = none
  · rw [containingDir_eq_error hmix, containingDir_eq_error (hmixed.mp hmix)]
  · rw [containingDir_eq_ok hmix, containingDir_eq_ok (mt hmixed.mpr hmix)]
    have hholds {directory : String}
        (hmem : directory ∈ directories.filter fun directory =>
          (Path.holds? directory file).getD false) : Path.holds? directory file = some true := by
      have hgetD := (List.mem_filter.mp hmem).2
      cases hanswer : Path.holds? directory file <;> simp_all
    refine congrArg Except.ok (longest?_congr (fun directory => ?_) ?_)
    · simp only [List.mem_filter, h]
    · exact fun directory hdirectory other hother =>
        Path.eq_of_holds (hholds hdirectory) (hholds hother)

end Containing

end Project

end ElmReach
