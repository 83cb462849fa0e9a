import ElmReach.Proofs.PathText
import ElmReach.SourceModule

/-!
# Module names and paths

The file of a module stands below a source root in the directories that the module's name names, so
the name is read back from the path: its parts are the names behind the root, the last one without
the extension. Different modules therefore have different paths. Without a source root, and with one
that the file does not stand below, only the last part of the name is left.
-/

namespace ElmReach

/-- A part of a module's name, which is also the name of a directory or, with an extension, of a
file. -/
structure IsNamePart (part : String) : Prop where
  ne_empty : part ≠ ""
  noSlash : '/' ∉ part.toList
  noDot : '.' ∉ part.toList

/-- Whether a text can be a part of a module's name can be decided by looking at its characters. -/
instance (part : String) : Decidable (IsNamePart part) :=
  decidable_of_iff (part ≠ "" ∧ '/' ∉ part.toList ∧ '.' ∉ part.toList)
    ⟨fun ⟨hempty, hslash, hdot⟩ => ⟨hempty, hslash, hdot⟩,
      fun h => ⟨h.ne_empty, h.noSlash, h.noDot⟩⟩

/-- A part of a module's name can stand between the slashes of a path. -/
theorem IsNamePart.isPiece {part : String} (h : IsNamePart part) : Path.IsPiece part where
  ne_empty := h.ne_empty
  ne_dot hdot := h.noDot (by simp [hdot])
  noSlash := h.noSlash

namespace Path

/-- The name of a file: a stem, and an extension behind a dot. -/
def fileName (stem extension : String) : String :=
  stem ++ "." ++ extension

variable {stem extension : String}

/-- The name of a module's file can stand between the slashes of a path. -/
theorem isPiece_fileName (hstem : IsNamePart stem) (hextension : IsNamePart extension) :
    IsPiece (fileName stem extension) := by
  have hlist : (fileName stem extension).toList = stem.toList ++ '.' :: extension.toList := by
    simp [fileName]
  refine ⟨fun hempty => ?_, fun hdot => ?_, ?_⟩
  · simp [hempty] at hlist
  · have hlength := congrArg List.length hlist
    have hpos := List.length_pos_iff.mpr hstem.isPiece.toList_ne_nil
    rw [hdot, List.length_append, List.length_cons] at hlength
    have hone : ".".toList.length = 1 := rfl
    omega
  · rw [hlist]
    simp [hstem.noSlash, hextension.noSlash]

/-- What stands in front of the last dot is the stem. -/
theorem stemOf_fileName (hstem : IsNamePart stem) (hextension : IsNamePart extension) :
    stemOf (fileName stem extension).toList = stem.toList := by
  have hlist : (fileName stem extension).toList = stem.toList ++ '.' :: extension.toList := by
    simp [fileName]
  have hbehind : (fileName stem extension).toList.reverse.takeWhile (· != '.') =
      extension.toList.reverse := by
    rw [hlist, List.reverse_append, List.reverse_cons, List.append_assoc,
      List.takeWhile_append_of_pos]
    · simp
    · intro c hc
      exact bne_iff_ne.mpr fun hdot => hextension.noDot (hdot ▸ List.mem_reverse.mp hc)
  have hstart := List.length_pos_iff.mpr hstem.isPiece.toList_ne_nil
  have hend := List.length_pos_iff.mpr hextension.isPiece.toList_ne_nil
  have hlength := congrArg List.length hlist
  rw [List.length_append, List.length_cons] at hlength
  rw [stemOf, hbehind, List.length_reverse]
  rw [if_pos (by omega), hlength, hlist]
  exact List.take_left' (by omega)

/-- The path of a module's file below a source root: a directory for each part of the name but the
last, and a file for that one. -/
def ofModule (root : String) (parts : List String) (extension : String) : String :=
  parts.foldl child root ++ "." ++ extension

variable {root : String} {parts : List String}

/-- The path of a module has the parts of the root, those of the module's name and, at the end, the
name of the file. -/
theorem ofString_ofModule_concat (hroot : IsTidy root) (hparts : ∀ part ∈ parts, IsNamePart part)
    (hstem : IsNamePart stem) (hextension : IsNamePart extension) :
    ofString (ofModule root (parts ++ [stem]) extension) =
      { ofString root with
        parts := (ofString root).parts ++ (parts ++ [fileName stem extension]) } := by
  have htext : ofModule root (parts ++ [stem]) extension =
      (parts ++ [fileName stem extension]).foldl child root := by
    rw [ofModule, List.foldl_append, List.foldl_append]
    simp only [List.foldl_cons, List.foldl_nil, fileName, child_append]
  rw [htext]
  refine hroot.ofString_foldl_child (List.forall_mem_append.mpr ⟨fun part hpart => ?_, ?_⟩)
  · exact (hparts part hpart).isPiece
  · simpa using isPiece_fileName hstem hextension

end Path

namespace SourceModule

variable {root extension : String} {parts others : List String}

/-- The parts of a module's name are read back from it, since none of them holds a dot. -/
theorem eq_of_intercalate_eq (hparts : parts ≠ []) (hothers : others ≠ [])
    (hpart : ∀ part ∈ parts, IsNamePart part) (hother : ∀ part ∈ others, IsNamePart part)
    (h : ".".intercalate parts = ".".intercalate others) : parts = others := by
  have hread {parts : List String} (hne : parts ≠ []) (hpart : ∀ part ∈ parts, IsNamePart part) :
      Text.splitAt '.' (".".intercalate parts).toList = parts.map String.toList := by
    have hdot : ∀ piece ∈ parts.map String.toList, '.' ∉ piece := by
      simpa using fun part hmem => (hpart part hmem).noDot
    rw [String.toList_intercalate]
    exact Text.splitAt_intercalate (by simpa using hne) hdot
  have hlists : parts.map String.toList = others.map String.toList := by
    rw [← hread hparts hpart, ← hread hothers hother, h]
  exact List.map_injective_iff.mpr (fun _ _ => String.toList_inj.mp) hlists

/-- Below a source root, the name of a module is made of the directories below the root and of the
file's name without its extension. -/
theorem nameOfPath_below (hroot : Path.IsTidy root) (hextension : IsNamePart extension)
    (hne : parts ≠ []) (hparts : ∀ part ∈ parts, IsNamePart part) :
    nameOfPath (Path.ofModule root parts extension) (some root) = .ok (".".intercalate parts) := by
  obtain ⟨front, stem, rfl⟩ := List.eq_nil_or_concat' parts |>.resolve_left hne
  obtain ⟨hfront, hstem⟩ := List.forall_mem_append.mp hparts
  have hstem' : IsNamePart stem := hstem stem (by simp)
  have hpath := Path.ofString_ofModule_concat hroot hfront hstem' hextension
  simp only [nameOfPath, hpath, Path.partsBelow?]
  simp [Path.stemOf_fileName hstem' hextension]

/-- Outside of the source root, or without one, the name of a module is only the file's name without
its extension. -/
theorem nameOfPath_outside (hroot : Path.IsTidy root) (hextension : IsNamePart extension)
    (hne : parts ≠ []) (hparts : ∀ part ∈ parts, IsNamePart part) {sourceRoot : Option String}
    (houtside : ∀ above ∈ sourceRoot,
      ¬ (Path.ofString above).IsAbove (Path.ofString (Path.ofModule root parts extension))) :
    nameOfPath (Path.ofModule root parts extension) sourceRoot = .ok (parts.getLast hne) := by
  obtain ⟨front, stem, rfl⟩ := List.eq_nil_or_concat' parts |>.resolve_left hne
  obtain ⟨hfront, hstem⟩ := List.forall_mem_append.mp hparts
  have hstem' : IsNamePart stem := hstem stem (by simp)
  have hpath := Path.ofString_ofModule_concat hroot hfront hstem' hextension
  have hnone : (sourceRoot.bind fun above =>
      (Path.ofString (Path.ofModule root (front ++ [stem]) extension)).partsBelow?
        (.ofString above)) = none :=
    Option.bind_eq_none_iff.mpr fun above habove =>
      Path.partsBelow?_eq_none_iff.mpr (houtside above habove)
  rw [nameOfPath, hnone, hpath]
  simp [Path.stem, Path.name, Path.stemOf_fileName hstem' hextension]

/-- From the path of a module's file and its source root the name of the module is read back, so
files of different modules below one source root stand for different names. Without a source root,
or with one that the file does not stand below, the path stands for the last part of the name. -/
theorem nameOfPath_ofModule (hroot : Path.IsTidy root) (hextension : IsNamePart extension)
    (hne : parts ≠ []) (hparts : ∀ part ∈ parts, IsNamePart part) :
    nameOfPath (Path.ofModule root parts extension) (some root) = .ok (".".intercalate parts) ∧
      (∀ others, others ≠ [] → (∀ part ∈ others, IsNamePart part) →
        nameOfPath (Path.ofModule root others extension) (some root) =
          nameOfPath (Path.ofModule root parts extension) (some root) → others = parts) ∧
      ∀ sourceRoot : Option String,
        (∀ above ∈ sourceRoot,
          ¬ (Path.ofString above).IsAbove
            (Path.ofString (Path.ofModule root parts extension))) →
        nameOfPath (Path.ofModule root parts extension) sourceRoot = .ok (parts.getLast hne) := by
  refine ⟨nameOfPath_below hroot hextension hne hparts, fun others hothers hpart h => ?_,
    fun sourceRoot habove => nameOfPath_outside hroot hextension hne hparts habove⟩
  rw [nameOfPath_below hroot hextension hne hparts,
    nameOfPath_below hroot hextension hothers hpart] at h
  exact eq_of_intercalate_eq hothers hne hpart hparts (Except.ok.inj h)

/-- Two files with the same last name, in a source root and in a directory below it. -/
theorem nameOfPath_ofModule_home :
    nameOfPath "/p/src/Page/Home.elm" (some "/p/src") = .ok "Page.Home" ∧
      nameOfPath "/p/src/Home.elm" (some "/p/src") ≠
        nameOfPath "/p/src/Page/Home.elm" (some "/p/src") ∧
      nameOfPath "/p/src/Page/Home.elm" (some "/p/lib") = .ok "Home" := by
  have hroot : Path.IsTidy "/p/src" := ⟨by decide +kernel, by decide +kernel⟩
  have hparts : ∀ part ∈ ["Page", "Home"], IsNamePart part := by decide
  obtain ⟨hbelow, hinjective, houtside⟩ :=
    nameOfPath_ofModule hroot (by decide : IsNamePart "elm") (by simp) hparts
  have hpage : Path.ofModule "/p/src" ["Page", "Home"] "elm" = "/p/src/Page/Home.elm" := by
    decide +kernel
  have hhome : Path.ofModule "/p/src" ["Home"] "elm" = "/p/src/Home.elm" := by decide +kernel
  have hname : ".".intercalate ["Page", "Home"] = "Page.Home" := by decide +kernel
  rw [hpage] at hbelow hinjective houtside
  refine ⟨hname ▸ hbelow, fun h => ?_, houtside (some "/p/lib") ?_⟩
  · rw [← hhome] at h
    exact absurd (hinjective ["Home"] (by simp) (by decide) h) (by simp)
  · decide +kernel

end SourceModule

end ElmReach
