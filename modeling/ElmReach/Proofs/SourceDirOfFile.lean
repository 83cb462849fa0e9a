import ElmReach.Proofs.BuildStages
import ElmReach.Proofs.DeepestDir
import ElmReach.Proofs.FoundFiles
import ElmReach.Proofs.PlainPath
import ElmReach.Proofs.ReportTotals
import ElmReach.Proofs.SourceFaults

/-!
# The source directory of a file

Directories are compared with a file by their names. Those above the file are the beginnings of one
list of names, so the longest text among them is that of the deepest one. Only directories with a
single slash in front are found: where the names of two paths agree, a single slash is put in front
of them. The files of a project stand below a source directory and have as many slashes in front.
-/

namespace ElmReach

namespace Path

/-- The text of a path with a single slash in front that reading and writing leave as it is. -/
structure IsRooted (text : String) : Prop where
  anchor : (ofString text).anchor = .root
  tidy : tidy text = text

/-- Whether a text is rooted can be decided from its characters. -/
instance (text : String) : Decidable (IsRooted text) :=
  decidable_of_iff ((ofString text).anchor = .root ∧ Path.tidy text = text)
    ⟨fun ⟨hanchor, htidy⟩ => ⟨hanchor, htidy⟩, fun h => ⟨h.anchor, h.tidy⟩⟩

variable {directory other file : String}

/-- A rooted directory is a tidy text. -/
theorem IsRooted.isTidy (h : IsRooted directory) : IsTidy directory :=
  ⟨by simp [h.anchor], h.tidy⟩

/-- Such a text is that of the place of its names, so that the names decide the text. -/
theorem IsRooted.render_parts (h : IsRooted directory) :
    Place.render (ofString directory).parts = directory := by
  have hpath : ofString directory = Place.toPath (ofString directory).parts :=
    congrArg₂ Path.mk h.anchor rfl
  calc
    Place.render (ofString directory).parts = (ofString directory).render := by
      rw [← Place.render_toPath, ← hpath]
    _ = directory := h.tidy

/-- Such texts are the same if their names are, since both start in the same way. -/
theorem IsRooted.eq_of_parts_eq (h : IsRooted directory) (hother : IsRooted other)
    (hparts : (ofString other).parts = (ofString directory).parts) : other = directory := by
  rw [← h.render_parts, ← hother.render_parts, hparts]

/-- Of two directories side by side, the name of the one being the start of the name of the other,
at most one is above a file. -/
theorem IsRooted.not_isAbove_append {ending : String} (h : IsRooted directory)
    (hroot : directory ≠ "/") (hending : ending ≠ "") (hslash : '/' ∉ ending.toList)
    (habove : (ofString directory).IsAbove (ofString file)) :
    ¬ (ofString (directory ++ ending)).IsAbove (ofString file) := by
  have hne : (ofString directory).parts ≠ [] := by
    intro hnil
    have hrender := h.render_parts
    rw [hnil] at hrender
    exact hroot (hrender.symm.trans (by decide +kernel))
  obtain ⟨above, name, htidy, hname, rfl⟩ := h.isTidy.exists_child hne
  rw [← child_append]
  rintro ⟨-, hbelow'⟩
  have hbelow := habove.2
  rw [htidy.ofString_child hname] at hbelow
  rw [htidy.ofString_child (hname.append hending hslash)] at hbelow'
  -- Both are beginnings of the file's names and equally long.
  have hsame := (List.prefix_of_prefix_length_le hbelow hbelow' (by simp)).eq_of_length (by simp)
  have hnames : name = name ++ ending := by simpa using hsame
  exact hending (by simpa using congrArg String.toList hnames)

/-- Parts that are in front of others are what the two have in common. -/
theorem commonParts_eq_left {parts others : List String} (h : parts <+: others) :
    commonParts parts others = parts := by
  obtain ⟨rest, rfl⟩ := h
  induction parts with
  | nil => simp [commonParts]
  | cons name parts ih => rw [List.cons_append, commonParts, if_pos rfl, ih]

/-- A directory holds a file if its names are the first names of the file's path and a single slash
stands in front of them. -/
theorem holds?_eq_true_iff (hdirectory : IsTidy directory) (hfile : isAnchored file = true) :
    holds? directory file = some true ↔
      (ofString directory).anchor = .root ∧
        (ofString directory).parts <+: (ofString file).parts := by
  have hanchored : isAnchored directory = true := by simp [isAnchored, hdirectory.anchored]
  have hholds : holds? directory file =
      some (Place.render (commonParts (ofString directory).parts (ofString file).parts) ==
        directory) := by
    simp [holds?, common?, hanchored, hfile, Place.render]
  rw [hholds, Option.some.injEq, beq_iff_eq]
  constructor
  · intro h
    have habove := commonParts_above (ofString directory).parts (ofString file).parts
    generalize commonParts (ofString directory).parts (ofString file).parts = common at h habove
    have hread : ofString (Place.render common) = Place.toPath common := by
      rw [← Place.render_toPath]
      exact ofString_render (by simp) fun part hpart =>
        isPiece_of_mem_ofString (habove.subset hpart)
    rw [← h, hread]
    exact ⟨rfl, habove⟩
  · rintro ⟨hanchor, habove⟩
    rw [commonParts_eq_left habove]
    exact IsRooted.render_parts ⟨hanchor, hdirectory.tidy⟩

/-- Of two directories above a file, the one with the longer text has more names. -/
theorem IsRooted.length_parts_lt (h : IsRooted directory) (hother : IsRooted other)
    (hne : other ≠ directory) (habove : (ofString directory).parts <+: (ofString file).parts)
    (habove' : (ofString other).parts <+: (ofString file).parts)
    (hlength : other.length ≤ directory.length) :
    (ofString other).parts.length < (ofString directory).parts.length := by
  rcases List.prefix_or_prefix_of_prefix habove' habove with hbelow | hbelow
  · refine lt_of_le_of_ne hbelow.length_le fun hsame => hne ?_
    exact h.eq_of_parts_eq hother (hbelow.eq_of_length hsame)
  · obtain ⟨names, hnames⟩ := hbelow
    have hsome : names ≠ [] := by
      rintro rfl
      rw [List.append_nil] at hnames
      exact hne (h.eq_of_parts_eq hother hnames.symm)
    have hempty : "" ∉ names := fun hmem =>
      empty_notMem_ofString other (hnames ▸ List.mem_append_right _ hmem)
    have hlonger : (Place.render (ofString directory).parts).length <
        (Place.render ((ofString directory).parts ++ names)).length :=
      Place.length_render_lt hsome hempty
    rw [hnames, h.render_parts, hother.render_parts] at hlonger
    omega

end Path

namespace Project

variable {directories : List String} {directory file : String}

/-- The directory is one of those that are above the file, and all others of these have fewer
names. -/
structure IsDeepest (directories : List String) (file directory : String) : Prop where
  mem : directory ∈ directories
  above : (Path.ofString directory).IsAbove (Path.ofString file)
  deepest : ∀ other ∈ directories, other ≠ directory →
    (Path.ofString other).IsAbove (Path.ofString file) →
      (Path.ofString other).parts.length < (Path.ofString directory).parts.length

/-- No other directory is as deep. Two directories above one file are the same if they are equally
deep. -/
theorem IsDeepest.eq {other : String} (h : IsDeepest directories file directory)
    (hother : IsDeepest directories file other) : other = directory := by
  by_contra hne
  have hlt := h.deepest other hother.mem hne hother.above
  have hgt := hother.deepest directory h.mem (Ne.symm hne) h.above
  omega

/-- The directories with a single slash in front whose names are the first names of the file's
path. -/
def rootedAbove (directories : List String) (file : String) : List String :=
  directories.filter fun directory => (Path.ofString directory).anchor = .root ∧
    (Path.ofString directory).parts <+: (Path.ofString file).parts

/-- The directories that hold a file are those with a single slash in front that are above it. The
common path that the directory is compared with never starts with two slashes. -/
theorem containingDir_eq_longest? (hdirectories : ∀ directory ∈ directories, Path.IsTidy directory)
    (hfile : Path.isAnchored file = true) :
    containingDir directories file = .ok (longest? (rootedAbove directories file)) := by
  have hanchored (directory : String) (hmem : directory ∈ directories) :
      Path.isAnchored directory = true := by
    simp [Path.isAnchored, (hdirectories directory hmem).anchored]
  rw [containingDir_eq_ok]
  · refine congrArg (fun holding => Except.ok (longest? holding)) ?_
    refine List.filter_congr fun directory hmem => ?_
    rw [Bool.eq_iff_iff, decide_eq_true_iff,
      ← Path.holds?_eq_true_iff (hdirectories directory hmem) hfile]
    cases Path.holds? directory file <;> simp
  · rintro ⟨directory, hmem, hnone⟩
    exact Path.holds?_ne_none (hanchored directory hmem) hfile hnone

/-- If no directory has a single slash in front, none holds a file, even if the file was found below
one of them. -/
theorem containingDir_of_doubleRoot
    (hdirectories : ∀ directory ∈ directories, Path.IsTidy directory)
    (hanchor : ∀ directory ∈ directories, (Path.ofString directory).anchor ≠ .root)
    (hfile : Path.isAnchored file = true) : containingDir directories file = .ok none := by
  have hnone : rootedAbove directories file = [] :=
    List.filter_eq_nil_iff.mpr fun directory hmem => by simp [hanchor directory hmem]
  rw [containingDir_eq_longest? hdirectories hfile, hnone]
  rfl

section Rooted

variable (hdirectories : ∀ directory ∈ directories, Path.IsRooted directory)
  (hfile : Path.IsRooted file)

include hdirectories hfile

/-- The directories that are compared are those above the file. -/
theorem mem_rootedAbove :
    directory ∈ rootedAbove directories file ↔
      directory ∈ directories ∧ (Path.ofString directory).IsAbove (Path.ofString file) := by
  rw [rootedAbove, List.mem_filter, decide_eq_true_iff]
  refine and_congr_right fun hmem => ?_
  simp [Path.IsAbove, hfile.anchor, (hdirectories directory hmem).anchor]

/-- Of the directories above a file, the one with the longest text is the deepest one. -/
theorem isDeepest_of_longest? (h : longest? (rootedAbove directories file) = some directory) :
    IsDeepest directories file directory := by
  obtain ⟨hmem, hlongest⟩ := mem_of_longest? h
  obtain ⟨hdirectory, habove⟩ := (mem_rootedAbove hdirectories hfile).mp hmem
  refine ⟨hdirectory, habove, fun other hother hne habove' => ?_⟩
  have hlength := hlongest other ((mem_rootedAbove hdirectories hfile).mpr ⟨hother, habove'⟩)
  exact (hdirectories directory hdirectory).length_parts_lt (hdirectories other hother) hne
    habove.2 habove'.2 hlength

/-- Among directories with a single slash in front, the deepest one above the file is chosen. -/
theorem containingDir_of_isRooted :
    ∃ answer, containingDir directories file = .ok answer ∧
      (∀ directory, answer = some directory ↔ IsDeepest directories file directory) ∧
      (answer = none ↔
        ∀ directory ∈ directories, ¬ (Path.ofString directory).IsAbove (Path.ofString file)) := by
  have hanchored : Path.isAnchored file = true := by simp [Path.isAnchored, hfile.anchor]
  refine ⟨_, containingDir_eq_longest? (fun directory hmem => (hdirectories directory hmem).isTidy)
    hanchored, fun directory => ⟨isDeepest_of_longest? hdirectories hfile, fun h => ?_⟩, ?_⟩
  · cases hlongest : longest? (rootedAbove directories file) with
    | none =>
      have hmem := (mem_rootedAbove hdirectories hfile).mpr ⟨h.mem, h.above⟩
      rw [longest?_eq_none_iff.mp hlongest] at hmem
      exact absurd hmem List.not_mem_nil
    | some chosen => rw [h.eq (isDeepest_of_longest? hdirectories hfile hlongest)]
  · rw [longest?_eq_none_iff, List.eq_nil_iff_forall_not_mem]
    simp only [mem_rootedAbove hdirectories hfile, not_and]

end Rooted

section Built

variable {host : Host} {settings : Settings} {config : ProjectConfig} {past : List LogRecord}
  {root : Path} {project : Project}

/-- A source directory is the text of a path of names of entries that starts where the root does. -/
theorem Built.exists_path (hbuilt : Built host settings config root project) (hhost : host.IsSound)
    (hdirectory : directory ∈ project.sourceDirs) :
    ∃ found : Path, found.render = directory ∧ found.anchor ≠ .here ∧
      Place.IsProper found.parts ∧ found.anchor = root.anchor := by
  obtain ⟨declared, -, found, hwithin, rfl⟩ := (hbuilt.mem_sourceDirs directory).mp hdirectory
  obtain ⟨hfound, hanchor, -⟩ := pathWithin?_eq_some_iff.mp hwithin
  obtain ⟨hanchored, hproper⟩ :=
    FileTree.isProper_of_resolve hhost.here (resolveIn_eq_ok_iff.mp hfound)
  exact ⟨found, rfl, hanchored, hproper, hanchor⟩

/-- The source directories of a project are tidy texts, and they all start as the root does: with
one slash or with two. -/
theorem Built.isTidy (hbuilt : Built host settings config root project) (hhost : host.IsSound)
    (hdirectory : directory ∈ project.sourceDirs) :
    Path.IsTidy directory ∧ (Path.ofString directory).anchor = root.anchor := by
  obtain ⟨found, rfl, hanchored, hproper, hanchor⟩ := hbuilt.exists_path hhost hdirectory
  have hpieces : ∀ part ∈ found.parts, Path.IsPiece part := fun part hpart =>
    (hproper part hpart).isPiece
  refine ⟨Path.isTidy_render hanchored hpieces, ?_⟩
  rw [Path.ofString_render hanchored hpieces, hanchor]

/-- The files of a project stand below its source directories. -/
theorem Built.exists_above (hbuilt : Built host settings config root project)
    (hhost : host.IsSound) (hfile : file ∈ project.files) :
    Path.IsTidy file ∧ ∃ directory ∈ project.sourceDirs,
      (Path.ofString directory).IsAbove (Path.ofString file) := by
  rw [hbuilt.files, Text.mem_sortedSet] at hfile
  obtain ⟨directory, hdirectory, hlisted⟩ := List.mem_flatMap.mp hfile
  obtain ⟨htidy, -⟩ := hbuilt.isTidy hhost hdirectory
  have hcollapsed : Path.collapsed directory = directory := by
    obtain ⟨found, rfl, hanchored, hproper, -⟩ := hbuilt.exists_path hhost hdirectory
    exact Place.collapsed_render_path hanchored hproper
  rw [hcollapsed] at hlisted
  have hbelow : Path.IsTidy file ∧ (Path.ofString directory).IsAbove (Path.ofString file) := by
    refine SourceScan.forall_mem_listed (P := fun text =>
      Path.IsTidy text ∧ (Path.ofString directory).IsAbove (Path.ofString text))
      (fun there text name hname htext => ?_) ⟨htidy, rfl, List.prefix_rfl⟩ file hlisted
    obtain ⟨htext, hanchor, hbelow⟩ := htext
    have hpiece := (hhost.tree.isName hname).isPiece
    refine ⟨htext.child hpiece, ?_⟩
    rw [htext.ofString_child hpiece]
    exact ⟨hanchor, hbelow.trans (List.prefix_append _ _)⟩
  exact ⟨hbelow.1, directory, hdirectory, hbelow.2⟩

/-- A file of a project has a source directory if the root has a single slash in front. -/
theorem Built.exists_sourceDirFor_iff (hbuilt : Built host settings config root project)
    (hhost : host.IsSound) (hfile : file ∈ project.files) :
    (∃ directory, project.sourceDirFor file = .ok (some directory)) ↔
      (Path.ofString project.root).anchor = .root := by
  obtain ⟨hanchored, hproper⟩ := FileTree.isProper_of_resolve hhost.here hbuilt.resolved
  have hroot : (Path.ofString project.root).anchor = root.anchor := by
    rw [hbuilt.rootText,
      Path.ofString_render hanchored fun part hpart => (hproper part hpart).isPiece]
  obtain ⟨hfileTidy, above, hmem, habove⟩ := hbuilt.exists_above hhost hfile
  have hdirs (directory : String) (hdirectory : directory ∈ project.sourceDirs) :=
    hbuilt.isTidy hhost hdirectory
  rw [hroot]
  constructor
  · rintro ⟨directory, hdirectory⟩
    by_contra hdouble
    rw [sourceDirFor, containingDir_of_doubleRoot (fun other hother => (hdirs other hother).1)
      (fun other hother => (hdirs other hother).2 ▸ hdouble)
      (by simp [Path.isAnchored, hfileTidy.anchored])] at hdirectory
    cases hdirectory
  · intro hsingle
    have hrooted (directory : String) (hdirectory : directory ∈ project.sourceDirs) :
        Path.IsRooted directory :=
      ⟨(hdirs directory hdirectory).2.trans hsingle, (hdirs directory hdirectory).1.tidy⟩
    have hfileRooted : Path.IsRooted file :=
      ⟨habove.1.trans ((hrooted above hmem).anchor), hfileTidy.tidy⟩
    obtain ⟨answer, hanswer, -, hnone⟩ := containingDir_of_isRooted hrooted hfileRooted
    obtain ⟨directory, hdirectory⟩ : ∃ directory, answer = some directory :=
      Option.ne_none_iff_exists'.mp fun h => hnone.mp h above hmem habove
    exact ⟨directory, hanswer.trans (congrArg _ hdirectory)⟩

end Built

/-- The source directory of a file is the deepest one above it, whatever the order of the source
directories, and a directory beside it does not count for having the start of its name. A file of a
project that is built has a source directory if the root has a single slash in front; otherwise it
has none. -/
theorem sourceDirFor_deepest (project : Project) (file : String) :
    ((∀ directory ∈ project.sourceDirs, Path.IsRooted directory) → Path.IsRooted file →
      ∃ answer, project.sourceDirFor file = .ok answer ∧
        (∀ directory, answer = some directory ↔ IsDeepest project.sourceDirs file directory) ∧
        (answer = none ↔ ∀ directory ∈ project.sourceDirs,
          ¬ (Path.ofString directory).IsAbove (Path.ofString file)) ∧
        (∀ other : Project,
          (∀ directory, directory ∈ other.sourceDirs ↔ directory ∈ project.sourceDirs) →
            other.sourceDirFor file = .ok answer) ∧
        ∀ directory ending, Path.IsRooted directory → directory ≠ "/" → ending ≠ "" →
          '/' ∉ ending.toList →
            ((Path.ofString directory).IsAbove (Path.ofString file) →
              answer ≠ some (directory ++ ending)) ∧
            ((Path.ofString (directory ++ ending)).IsAbove (Path.ofString file) →
              answer ≠ some directory)) ∧
    ∀ (host : Host) (settings : Settings) (config : ProjectConfig) (past : List LogRecord),
      host.IsSound → (build host settings config past).outcome = .ok project →
        file ∈ project.files →
          ((∃ directory, project.sourceDirFor file = .ok (some directory)) ↔
            (Path.ofString project.root).anchor = .root) := by
  refine ⟨fun hdirectories hfile => ?_, fun host settings config past hhost hbuild hfile => ?_⟩
  · obtain ⟨answer, hanswer, hdeepest, hnone⟩ := containingDir_of_isRooted hdirectories hfile
    refine ⟨answer, hanswer, hdeepest, hnone, fun other hother => ?_,
      fun directory ending hdirectory hroot hending hslash => ⟨fun habove hlonger => ?_,
        fun habove hshorter => ?_⟩⟩
    · rw [sourceDirFor, containingDir_congr hother]
      exact hanswer
    · have hlonger' := ((hdeepest _).mp hlonger).above
      exact hdirectory.not_isAbove_append hroot hending hslash habove hlonger'
    · have hshorter' := ((hdeepest _).mp hshorter).above
      exact hdirectory.not_isAbove_append hroot hending hslash hshorter' habove
  · obtain ⟨root, hbuilt⟩ := exists_built hbuild
    exact hbuilt.exists_sourceDirFor_iff hhost hfile

/-- A file in a source directory inside another one, and a file of a project that is built. -/
theorem sourceDirFor_deepest_vendor :
    (∀ project : Project, project.sourceDirs = ["/p/src", "/p/src/vendor", "/p/src2"] →
      project.sourceDirFor "/p/src/vendor/B.elm" = .ok (some "/p/src/vendor") ∧
        project.sourceDirFor "/p/src2/A.elm" ≠ .ok (some "/p/src")) ∧
    ∃ project, (build linkedHost .default (linkedConfig ["src", "lib"]) []).outcome = .ok project ∧
      "/p/lib/B.elm" ∈ project.files ∧
      ∃ directory, project.sourceDirFor "/p/lib/B.elm" = .ok (some directory) := by
  constructor
  · intro project hdirs
    have hrooted : ∀ directory ∈ project.sourceDirs, Path.IsRooted directory := by
      rw [hdirs]
      decide +kernel
    obtain ⟨answer, hanswer, hiff, -⟩ :=
      (sourceDirFor_deepest project "/p/src/vendor/B.elm").1 hrooted (by decide +kernel)
    obtain ⟨answer', hanswer', -, -, -, hbeside⟩ :=
      (sourceDirFor_deepest project "/p/src2/A.elm").1 hrooted (by decide +kernel)
    rw [hanswer, hanswer']
    refine ⟨congrArg _ ((hiff "/p/src/vendor").mpr ?_), fun h => ?_⟩
    · rw [hdirs]
      exact ⟨by decide, by decide +kernel, by decide +kernel⟩
    · have hnext := hbeside "/p/src" "2" (by decide +kernel) (by decide) (by decide) (by decide)
      exact hnext.2 (by decide +kernel) (Except.ok.inj h)
  · have hdeclared : ∀ directory ∈ ["src", "lib"], ∃ place, (directory, place) ∈ linkedDirs := by
      simp [linkedDirs]
    obtain ⟨project, hproject, -⟩ := exists_build_linkedHost hdeclared (by decide)
    obtain ⟨root, hstages⟩ := exists_built (hproject [])
    obtain rfl := Except.ok.inj (hstages.resolved.symm.trans resolveRoot_linkedHost)
    obtain ⟨-, hfiles⟩ := Report.files_of_linkedHost hstages
    have hfile : "/p/lib/B.elm" ∈ project.files := by simp [hfiles]
    refine ⟨project, hproject [], hfile, ?_⟩
    obtain ⟨-, hbuilt⟩ := sourceDirFor_deepest project "/p/lib/B.elm"
    refine (hbuilt _ _ _ _ isSound_linkedHost (hproject []) hfile).mpr ?_
    rw [hstages.rootText]
    decide +kernel

/-- A package that a path leads to through a link that leads back to itself. The target of the other
link holds slashes that are kept behind it. -/
def circularHost : Host where
  tree := ⟨[(["link"], .link "loop///p"), (["loop"], .link "loop"), (["p"], .directory),
    (["p", "A.elm"], .file [])]⟩
  here := []
  accountHome := "/"
  environment := []
  time := ""

/-- The package, its root being its source directory. -/
def circularConfig : ProjectConfig :=
  { kind := some "package", root := "/link", sourceDirs := ["/link"],
    exposed := .ungrouped (.one "A") }

/-- The tree with a circular link is one that a file system can hold. -/
theorem isStorable_circularHost : circularHost.tree.IsStorable := by
  decide

/-- The directory is found below two slashes as well, since the file system takes them for one. -/
theorem locate_circularHost :
    circularHost.tree.locate circularHost.here "//p" =
      .ok { place := ["p"], entry := .directory, links := FileTree.maxLinks } := by
  have hstart : FileTree.startOf circularHost.here "//p" = [] := by decide
  have hsteps : FileTree.stepsOf "//p" = ["p"] := by decide +kernel
  rw [FileTree.locate, if_neg (by decide), if_neg (by decide), if_neg (by decide +kernel), hstart,
    hsteps, FileTree.follow_of_directory (by decide) (by decide) (by decide), FileTree.follow]
  rfl

/-- Behind the link that leads back to itself two slashes are left. -/
theorem realPath_circularHost (here : Place) :
    circularHost.tree.realPath 970 here "/link" =
      .ok { anchor := .doubleRoot, parts := ["p"] } := by
  let link := FileTree.Waypoint.root.down "link"
  let loop := FileTree.Waypoint.root.down "loop"
  have hloop : circularHost.tree.entryAt? loop.place = some (.link "loop") := by decide
  have hsteps : FileTree.splitSteps "/link" = ["", "link"] ∧
      FileTree.splitSteps "loop" = ["loop"] ∧
      FileTree.splitSteps "loop///p" = ["loop", "", "", "p"] := by
    decide +kernel
  have hstart : (FileTree.Waypoint.ofPlace here).start "/link" = .root ∧
      FileTree.Waypoint.root.start "loop" = .root ∧
        FileTree.Waypoint.root.start "loop///p" = .root := ⟨rfl, rfl, rfl⟩
  have hcircle : circularHost.tree.settle 970 [loop, link] (FileTree.Waypoint.root.start "loop")
      (FileTree.splitSteps "loop") = .circular { anchor := .root, parts := ["loop"] } := by
    rw [hsteps.2.1, hstart.2.1, FileTree.settle_of_active (by decide) hloop (by decide)]
    decide +kernel
  have htarget : circularHost.tree.settle 970 [link] (FileTree.Waypoint.root.start "loop///p")
      (FileTree.splitSteps "loop///p") = .circular { anchor := .doubleRoot, parts := ["p"] } := by
    rw [hsteps.2.2, hstart.2.2,
      FileTree.settle_of_circular (by decide) (by decide) (by decide) (by decide) hcircle]
    decide +kernel
  have hwhole : circularHost.tree.settle 970 [] .root ["", "link"] =
      .circular { anchor := .doubleRoot, parts := ["p"] } := by
    rw [FileTree.settle, if_pos (.inl rfl),
      FileTree.settle_of_circular (by decide) (by decide) (by decide) (by decide) htarget]
    decide +kernel
  rw [FileTree.realPath, hstart.1, hsteps.1, hwhole]
  decide +kernel

/-- Resolving the link gives a path with two slashes in front, as they stand behind the circular
link. -/
theorem resolve_circularHost (here : Place) :
    circularHost.tree.resolve 970 here "/link" = .ok { anchor := .doubleRoot, parts := ["p"] } := by
  have htext : Path.render { anchor := .doubleRoot, parts := ["p"] } = "//p" := by decide +kernel
  have hlocate : circularHost.tree.locate [] "//p" = _ := locate_circularHost
  rw [FileTree.resolve_of_realPath (realPath_circularHost here), htext, hlocate]

/-- The root of the package, as it is found: with two slashes in front. -/
def circularRoot : Path :=
  { anchor := .doubleRoot, parts := ["p"] }

/-- The project with the link accepts the directory with two slashes in front. -/
theorem acceptsDir_circularHost : AcceptsDir circularHost circularRoot ["/link"] "//p" := by
  have hfound : resolveIn circularHost circularRoot "/link" = .ok circularRoot := by
    have htext : (circularRoot.append (.ofString "/link")).render = "/link" := by decide +kernel
    rw [resolveIn_eq_ok_iff, htext]
    exact resolve_circularHost _
  exact ⟨"/link", by simp, _, pathWithin?_eq_some_iff.mpr ⟨hfound, rfl, List.prefix_rfl⟩,
    by decide +kernel⟩

/-- The scan finds the file below the directory, with two slashes in front of its path too. -/
theorem finds_circularHost :
    SourceScan.plainScan.Finds circularHost "//p" "//p/A.elm" := by
  have hentry : circularHost.tree.entryAt? (["p"] ++ ["A.elm"]) = some (.file []) := by decide
  have htakes : SourceScan.plainScan.Takes circularHost "//p" "A.elm" :=
    SourceScan.takes_of_file isStorable_circularHost locate_circularHost hentry (by decide)
      List.not_mem_nil List.not_mem_nil
  refine SourceScan.finds_of_leaf rfl locate_circularHost (fun name hdirectory => ?_) htakes
  have hmem := FileTree.mem_entries_of_entryAt? (by simp) hdirectory
  simp [circularHost] at hmem

/-- The project with the link is built. -/
theorem exists_built_circularHost :
    ∃ project, (build circularHost .default circularConfig []).outcome = .ok project ∧
      Built circularHost .default circularConfig circularRoot project := by
  have hexposed : circularConfig.exposed.names ≠ [] := by
    have hnames : ExposedModules.names (.ungrouped (.one "A")) ≠ [] := by decide +kernel
    exact hnames
  have hroot : resolveRoot circularHost "/link" = .ok circularRoot := by
    have htext : Path.tidy "/link" = "/link" := by decide +kernel
    rw [resolveRoot, htext]
    exact resolve_circularHost _
  have hdirs : ∀ directory ∈ ["/link"], '\x00' ∉ directory.toList := by decide
  have hroom : circularHost.HasRoom Settings.default.followLinks :=
    Host.hasRoom (by decide) (by decide)
  obtain ⟨project, hproject, -⟩ := exists_build_eq_ok_of_package
    ⟨isStorable_circularHost.toIsSound, Place.isProper_nil⟩ rfl hexposed hroot hdirs
    ⟨_, acceptsDir_circularHost⟩ hroom rfl rfl
  obtain ⟨root, hbuilt⟩ := exists_built (hproject [])
  obtain rfl := Except.ok.inj (hbuilt.resolved.symm.trans hroot)
  exact ⟨project, hproject [], hbuilt⟩

/-- A file of a project that is built with two slashes in front of its root has no source
directory. -/
theorem sourceDirFor_none_of_circularHost :
    ∃ project, (build circularHost .default circularConfig []).outcome = .ok project ∧
      "//p/A.elm" ∈ project.files ∧ project.sourceDirFor "//p/A.elm" = .ok none := by
  obtain ⟨project, hproject, hbuilt⟩ := exists_built_circularHost
  have hhost : circularHost.IsSound := ⟨isStorable_circularHost.toIsSound, Place.isProper_nil⟩
  have hscan : project.scan .default = SourceScan.plainScan := hbuilt.scan_eq rfl rfl
  refine ⟨project, hproject, ?_, ?_⟩
  · have hcollapsed : Path.collapsed "//p" = "//p" := by decide +kernel
    rw [hbuilt.files, hscan, Text.mem_sortedSet, List.mem_flatMap]
    refine ⟨"//p", (hbuilt.mem_sourceDirs _).mpr acceptsDir_circularHost, ?_⟩
    have hroom : ¬ SourceScan.plainScan.Overflows circularHost "//p" :=
      SourceScan.not_overflows rfl (by decide) (by decide)
    rw [hcollapsed, SourceScan.mem_listed_iff_finds isStorable_circularHost hroom]
    exact finds_circularHost
  · refine containingDir_of_doubleRoot (fun directory hmem => (hbuilt.isTidy hhost hmem).1)
      (fun directory hmem => ?_) (by decide +kernel)
    rw [(hbuilt.isTidy hhost hmem).2]
    decide

end Project

end ElmReach
