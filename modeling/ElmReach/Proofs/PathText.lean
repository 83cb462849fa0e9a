import ElmReach.Path.Collapse
import Mathlib.Data.List.Basic
import Mathlib.Tactic.Common

/-!
# Paths and their texts

An anchored path is read back from its text if its names are such as stand between slashes: none of
them is empty, a single dot, or has a slash in it. All names of a path that was read are such names.
The text of an entry of a directory is the text of the directory's path with one more name.
-/

namespace ElmReach

namespace Text

variable {separator : Char}

/-- A text without the separator is one piece. -/
theorem splitAt_eq_singleton {text : List Char} (h : separator ∉ text) :
    splitAt separator text = [text] := by
  induction text with
  | nil => rfl
  | cons c rest ih =>
    obtain ⟨hc, hrest⟩ := List.ne_and_not_mem_of_not_mem_cons h
    rw [splitAt, if_neg (Ne.symm hc), ih hrest]
    rfl

/-- A piece ends at the first separator behind it. -/
theorem splitAt_append {piece : List Char} (h : separator ∉ piece) (rest : List Char) :
    splitAt separator (piece ++ separator :: rest) = piece :: splitAt separator rest := by
  induction piece with
  | nil => simp [splitAt]
  | cons c piece ih =>
    obtain ⟨hc, hpiece⟩ := List.ne_and_not_mem_of_not_mem_cons h
    rw [List.cons_append, splitAt, if_neg (Ne.symm hc), ih hpiece]
    rfl

/-- Pieces without separators are read back from the text that they are joined to. -/
theorem splitAt_intercalate {pieces : List (List Char)} (hne : pieces ≠ [])
    (h : ∀ piece ∈ pieces, separator ∉ piece) :
    splitAt separator ([separator].intercalate pieces) = pieces := by
  induction pieces with
  | nil => exact absurd rfl hne
  | cons piece rest ih =>
    have hpiece := h piece List.mem_cons_self
    cases rest with
    | nil => rw [List.intercalate_singleton, splitAt_eq_singleton hpiece]
    | cons next others =>
      rw [List.intercalate_cons_cons, List.append_assoc, List.singleton_append,
        splitAt_append hpiece,
        ih (by simp) fun other hother => h other (List.mem_cons_of_mem piece hother)]

/-- The pieces of a text are made of its other characters. -/
theorem mem_and_ne_of_mem_splitAt {text piece : List Char} {c : Char}
    (hpiece : piece ∈ splitAt separator text) (hc : c ∈ piece) : c ∈ text ∧ c ≠ separator := by
  induction text generalizing piece with
  | nil =>
    rw [List.mem_singleton.mp hpiece] at hc
    exact absurd hc List.not_mem_nil
  | cons d rest ih =>
    rw [splitAt] at hpiece
    split at hpiece
    · rcases List.mem_cons.mp hpiece with rfl | hpiece
      · exact absurd hc List.not_mem_nil
      · exact (ih hpiece hc).imp_left (List.mem_cons_of_mem d)
    · next hd =>
      cases hpieces : splitAt separator rest with
      | nil =>
        rw [hpieces, consFirst, List.mem_singleton] at hpiece
        rw [hpiece, List.mem_singleton] at hc
        subst hc
        exact ⟨List.mem_cons_self, hd⟩
      | cons first others =>
        rw [hpieces, consFirst] at hpiece
        rcases List.mem_cons.mp hpiece with rfl | hothers
        · rcases List.mem_cons.mp hc with rfl | hfirst
          · exact ⟨List.mem_cons_self, hd⟩
          · have hmem : first ∈ splitAt separator rest := hpieces ▸ List.mem_cons_self
            exact (ih hmem hfirst).imp_left (List.mem_cons_of_mem d)
        · have hmem : piece ∈ splitAt separator rest :=
            hpieces ▸ List.mem_cons_of_mem first hothers
          exact (ih hmem hc).imp_left (List.mem_cons_of_mem d)

end Text

namespace Path

/-- A name as it stands between the slashes of a path's text: it is not empty, is no single dot, and
holds no slash. -/
structure IsPiece (part : String) : Prop where
  ne_empty : part ≠ ""
  ne_dot : part ≠ "."
  noSlash : '/' ∉ part.toList

/-- A piece of a path is not empty. -/
theorem IsPiece.toList_ne_nil {part : String} (h : IsPiece part) : part.toList ≠ [] :=
  fun hnil => h.ne_empty (String.toList_eq_nil_iff.mp hnil)

/-- A name may go on in any way without a slash. So a name with an extension behind it is a name. -/
theorem IsPiece.append {part ending : String} (h : IsPiece part) (hending : ending ≠ "")
    (hslash : '/' ∉ ending.toList) : IsPiece (part ++ ending) := by
  have hpos := List.length_pos_iff.mpr h.toList_ne_nil
  have hpos' : 0 < ending.toList.length := List.length_pos_iff.mpr (by simpa using hending)
  have hlength : (part ++ ending).toList.length = part.toList.length + ending.toList.length := by
    rw [String.toList_append, List.length_append]
  have hempty : "".toList.length = 0 := rfl
  have hdot : ".".toList.length = 1 := rfl
  refine ⟨fun heq => ?_, fun heq => ?_, by simp [h.noSlash, hslash]⟩
  · rw [heq] at hlength
    omega
  · rw [heq] at hlength
    omega

/-- The names of a path that was read stood between slashes. -/
theorem isPiece_of_mem_ofString {text part : String} (h : part ∈ (ofString text).parts) :
    IsPiece part := by
  obtain ⟨piece, hpiece, rfl⟩ := List.mem_map.mp h
  obtain ⟨hmem, hkeep⟩ := List.mem_filter.mp hpiece
  have hkept : piece ≠ [] ∧ piece ≠ ['.'] := by simpa using hkeep
  refine ⟨?_, ?_, ?_⟩
  · simpa [← String.toList_inj] using hkept.1
  · simpa [← String.toList_inj] using hkept.2
  · rw [String.toList_ofList]
    exact fun hslash => (Text.mem_and_ne_of_mem_splitAt hmem hslash).2 rfl

variable {parts : List String}

/-- The text of parts has a slash between each two of them. -/
theorem toList_joinParts (parts : List String) :
    (joinParts parts).toList = ['/'].intercalate (parts.map String.toList) := by
  simp [joinParts, String.toList_intercalate]

/-- A part at the end is written behind a slash. -/
theorem joinParts_concat (hne : parts ≠ []) (name : String) :
    joinParts (parts ++ [name]) = joinParts parts ++ "/" ++ name := by
  induction parts with
  | nil => exact absurd rfl hne
  | cons part rest ih =>
    unfold joinParts at ih ⊢
    cases rest with
    | nil => simp [String.intercalate_cons_cons]
    | cons next others =>
      rw [List.cons_append, List.cons_append, String.intercalate_cons_cons,
        String.intercalate_cons_cons, ← List.cons_append, ih (by simp)]
      simp [String.append_assoc]

/-- No slash stands in front of the first name, so that the slashes at the front of a path's text
are those of its anchor. -/
theorem head?_joinParts (hparts : ∀ part ∈ parts, IsPiece part) :
    (joinParts parts).toList.head? ≠ some '/' := by
  cases parts with
  | nil => simp [joinParts]
  | cons part rest =>
    have hpart := hparts part List.mem_cons_self
    obtain ⟨c, others, hlist⟩ := List.exists_cons_of_ne_nil hpart.toList_ne_nil
    have hc : c ≠ '/' := fun h => hpart.noSlash (by simp [hlist, h])
    rw [toList_joinParts]
    cases rest with
    | nil => simpa [hlist] using hc
    | cons next names => simpa [List.intercalate_cons_cons, hlist] using hc

/-- Behind the last name stands no slash, so that the text of a path ends as the name of its file
does. -/
theorem exists_getLast?_joinParts (hne : parts ≠ []) (hparts : ∀ part ∈ parts, IsPiece part) :
    ∃ c, (joinParts parts).toList.getLast? = some c ∧ c ≠ '/' := by
  obtain ⟨front, last, rfl⟩ := List.eq_nil_or_concat' parts |>.resolve_left hne
  have hlast := hparts last (by simp)
  obtain ⟨base, c, hbase⟩ := List.eq_nil_or_concat' last.toList |>.resolve_left hlast.toList_ne_nil
  have hend : (joinParts (front ++ [last])).toList.getLast? = last.toList.getLast? := by
    by_cases hfront : front = []
    · simp [hfront, joinParts]
    · rw [joinParts_concat hfront, String.toList_append,
        List.getLast?_append_of_ne_nil _ hlast.toList_ne_nil]
  refine ⟨c, by simp [hend, hbase], fun hc => hlast.noSlash ?_⟩
  simp [hbase, hc]

/-- A slash in front of a text does not change its parts; it may change where the path starts. -/
theorem parts_slash_append (text : String) :
    (ofString ("/" ++ text)).parts = (ofString text).parts := by
  simp [ofString, Text.splitAt]

/-- Names are read back from the text that they are joined to. -/
theorem parts_joinParts (hparts : ∀ part ∈ parts, IsPiece part) :
    (ofString (joinParts parts)).parts = parts := by
  by_cases hne : parts = []
  · subst hne
    decide +kernel
  · have hslash : ∀ piece ∈ parts.map String.toList, '/' ∉ piece := by
      simpa using fun part hpart => (hparts part hpart).noSlash
    have hkeep : (parts.map String.toList).filter (fun piece => piece ≠ [] ∧ piece ≠ ['.']) =
        parts.map String.toList := by
      refine List.filter_eq_self.mpr fun piece hpiece => ?_
      obtain ⟨part, hpart, rfl⟩ := List.mem_map.mp hpiece
      have hdot : part.toList ≠ ['.'] := fun h =>
        (hparts part hpart).ne_dot (String.toList_inj.mp h)
      simp [(hparts part hpart).ne_empty, hdot]
    rw [ofString, toList_joinParts, Text.splitAt_intercalate (by simpa using hne) hslash]
    simp only
    rw [hkeep, List.map_map]
    simp [Function.comp_def]

variable {path : Path}

/-- An anchored path is read back from its text, if its parts can stand between slashes. -/
theorem ofString_render (hanchor : path.anchor ≠ .here)
    (hparts : ∀ part ∈ path.parts, IsPiece part) : ofString path.render = path := by
  obtain ⟨anchor, parts⟩ := path
  have hstart : (joinParts parts).toList.takeWhile (· == '/') = [] := by
    have hhead := head?_joinParts hparts
    cases htext : (joinParts parts).toList with
    | nil => rfl
    | cons c rest =>
      have hc : c ≠ '/' := by simpa [htext] using hhead
      simp [hc]
  have hread := parts_joinParts hparts
  cases anchor with
  | here => exact absurd rfl hanchor
  | root =>
    have hanchor : anchorOf ("/" ++ joinParts parts).toList = .root := by
      simp [anchorOf, hstart]
    exact congrArg₂ Path.mk hanchor ((parts_slash_append _).trans hread)
  | doubleRoot =>
    have hanchor : anchorOf ("//" ++ joinParts parts).toList = .doubleRoot := by
      simp [anchorOf, hstart]
    have hslashes : "//" ++ joinParts parts = "/" ++ ("/" ++ joinParts parts) := by
      rw [← String.append_assoc]
      rfl
    have hparts : (ofString ("//" ++ joinParts parts)).parts = parts := by
      rw [hslashes, parts_slash_append, parts_slash_append, hread]
    exact congrArg₂ Path.mk hanchor hparts

/-- The text of an entry is that of the path with one more name. -/
theorem child_render (hanchor : path.anchor ≠ .here) (hparts : ∀ part ∈ path.parts, IsPiece part)
    (name : String) :
    child path.render name = render { path with parts := path.parts ++ [name] } := by
  obtain ⟨anchor, parts⟩ := path
  by_cases hne : parts = []
  · subst hne
    cases anchor with
    | here => exact absurd rfl hanchor
    | root => simp [child, render, joinParts]
    | doubleRoot => simp [child, render, joinParts]
  · obtain ⟨c, hc, hslash⟩ := exists_getLast?_joinParts hne hparts
    have hlast (slashes : String) : (slashes ++ joinParts parts).toList.getLast? ≠ some '/' := by
      rw [String.toList_append, List.getLast?_append, hc]
      simpa using hslash
    cases anchor with
    | here => exact absurd rfl hanchor
    | root =>
      simp only [child, render, hlast "/", if_false, joinParts_concat hne, String.append_assoc]
    | doubleRoot =>
      simp only [child, render, hlast "//", if_false, joinParts_concat hne, String.append_assoc]

/-- The text of an anchored path that reading and writing leave as it is. -/
structure IsTidy (text : String) : Prop where
  anchored : (ofString text).anchor ≠ .here
  tidy : tidy text = text

/-- The text of a path that does not start here is tidy: it is the text of the path that it is read
as. -/
theorem isTidy_render (hanchor : path.anchor ≠ .here) (hparts : ∀ part ∈ path.parts, IsPiece part) :
    IsTidy path.render := by
  have hread := ofString_render hanchor hparts
  exact ⟨by rwa [hread], by rw [tidy, hread]⟩

/-- An ending of a name is an ending of the child's path. -/
theorem child_append (directory name ending : String) :
    child directory (name ++ ending) = child directory name ++ ending := by
  unfold child
  split <;> simp only [String.append_assoc]

section Child

variable {directory name : String}

/-- The child of a tidy directory has one part more. -/
theorem IsTidy.child_eq (h : IsTidy directory) (name : String) :
    child directory name =
      render { ofString directory with parts := (ofString directory).parts ++ [name] } := by
  have hchild := child_render h.anchored (fun part hpart => isPiece_of_mem_ofString hpart) name
  rwa [show (ofString directory).render = directory from h.tidy] at hchild

/-- The path of an entry is that of its directory with one more name. -/
theorem IsTidy.ofString_child (h : IsTidy directory) (hname : IsPiece name) :
    ofString (child directory name) =
      { ofString directory with parts := (ofString directory).parts ++ [name] } := by
  rw [h.child_eq]
  exact ofString_render h.anchored (List.forall_mem_append.mpr
    ⟨fun part hpart => isPiece_of_mem_ofString hpart, by simpa using hname⟩)

/-- The child of a tidy directory is tidy. -/
theorem IsTidy.child (h : IsTidy directory) (hname : IsPiece name) :
    IsTidy (child directory name) := by
  rw [h.child_eq]
  exact isTidy_render h.anchored (List.forall_mem_append.mpr
    ⟨fun part hpart => isPiece_of_mem_ofString hpart, by simpa using hname⟩)

/-- The path of what stands below a directory is that of the directory with the names on the way. -/
theorem IsTidy.ofString_foldl_child {names : List String} (h : IsTidy directory)
    (hnames : ∀ name ∈ names, IsPiece name) :
    ofString (names.foldl Path.child directory) =
      { ofString directory with parts := (ofString directory).parts ++ names } := by
  induction names generalizing directory with
  | nil => simp
  | cons name rest ih =>
    obtain ⟨hname, hrest⟩ := List.forall_mem_cons.mp hnames
    rw [List.foldl_cons, ih (h.child hname) hrest, h.ofString_child hname, List.append_assoc,
      List.singleton_append]

/-- A path with names is the path of an entry of a directory. -/
theorem IsTidy.exists_child (h : IsTidy directory) (hne : (ofString directory).parts ≠ []) :
    ∃ above name, IsTidy above ∧ IsPiece name ∧ Path.child above name = directory := by
  obtain ⟨front, name, hparts⟩ := List.eq_nil_or_concat' _ |>.resolve_left hne
  have hpieces : ∀ part ∈ front ++ [name], IsPiece part := fun part hpart =>
    isPiece_of_mem_ofString (hparts ▸ hpart)
  obtain ⟨hfront, hname⟩ := List.forall_mem_append.mp hpieces
  let above : Path := { ofString directory with parts := front }
  have habove : above.anchor ≠ .here := h.anchored
  refine ⟨above.render, name, isTidy_render habove hfront, hname name (by simp), ?_⟩
  rw [child_render habove hfront, ← hparts]
  exact h.tidy

end Child

/-- The names of a path start with those of a path above it, and both start in the same place. A
path is above itself. -/
def IsAbove (above path : Path) : Prop :=
  path.anchor = above.anchor ∧ above.parts <+: path.parts

/-- Whether a path is above another one can be decided by comparing anchors and parts. -/
instance (above path : Path) : Decidable (above.IsAbove path) :=
  inferInstanceAs (Decidable (_ ∧ _))

/-- A path has no parts below another one exactly if the other one is not above it. -/
theorem partsBelow?_eq_none_iff {above : Path} :
    path.partsBelow? above = none ↔ ¬ above.IsAbove path := by
  simp [partsBelow?, IsAbove]

end Path

end ElmReach
