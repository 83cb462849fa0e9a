import ElmReach.Proofs.BuildFaults
import ElmReach.Proofs.FoundFiles
import ElmReach.Proofs.PlainPath

/-!
# What an exclusion excludes

An exclusion is resolved before it is compared with the files that a scan finds, but these are not
resolved. So it takes away the file, or the files of the directory, that it stands for. This is the
file or the directory that it names if no link stands on its way; a link that is named is kept.
-/

namespace ElmReach

namespace SourceScan

variable {scan : SourceScan} {host : Host} {start file : String}

/-- The same scan without its exclusions. What it finds is what a project would hold if nothing were
excluded. -/
def withoutExclusions (scan : SourceScan) : SourceScan :=
  { scan with excludeDirs := [], excludeFiles := [] }

/-- The directories that a walk comes to end as its start does. -/
theorem endsPlain_of_walksTo (htree : host.tree.IsStorable) {directory : String}
    (hstart : Path.EndsPlain start)
    (h : host.tree.WalksTo host.here scan.followLinks start directory) :
    Path.EndsPlain directory := by
  rcases Relation.ReflTransGen.cases_tail_iff _ _ _ |>.mp h with rfl | ⟨above, -, henters⟩
  · exact hstart
  · obtain ⟨name, entry, rfl, ⟨place, links, -, hentry⟩, -⟩ := henters
    exact Path.endsPlain_child (htree.isName hentry)

/-- An exclusion takes away a file that it names, and the files that stand in a directory that it
names. -/
theorem finds_iff (htree : host.tree.IsStorable) (hstart : Path.EndsPlain start) :
    scan.Finds host start file ↔ scan.withoutExclusions.Finds host start file ∧
      file ∉ scan.excludeFiles.map Path.collapsed ∧
        Path.directoryOf file ∉ scan.excludeDirs.map Path.collapsed := by
  have hdirectory {directory name : String}
      (hwalks : host.tree.WalksTo host.here scan.followLinks start directory)
      (htakes : ∃ entry, host.tree.HasEntry host.here directory name entry) :
      Path.directoryOf (Path.child directory name) = directory := by
    obtain ⟨entry, place, links, -, hentry⟩ := htakes
    exact Path.directoryOf_child (endsPlain_of_walksTo htree hstart hwalks)
      (htree.isName hentry).noSlash
  constructor
  · rintro ⟨hwalkable, directory, name, hwalks, htakes, rfl⟩
    obtain ⟨entry, hentry, -⟩ := htakes.entry
    refine ⟨⟨hwalkable, directory, name, hwalks, ?_, rfl⟩, htakes.keepsFile, ?_⟩
    · exact ⟨htakes.entry, htakes.extension, List.not_mem_nil, List.not_mem_nil⟩
    · rw [hdirectory hwalks ⟨entry, hentry⟩]
      exact htakes.keepsDirectory
  · rintro ⟨⟨hwalkable, directory, name, hwalks, htakes, rfl⟩, hfile, hkept⟩
    obtain ⟨entry, hentry, -⟩ := htakes.entry
    rw [hdirectory hwalks ⟨entry, hentry⟩] at hkept
    exact ⟨hwalkable, directory, name, hwalks, ⟨htakes.entry, htakes.extension, hkept, hfile⟩, rfl⟩

end SourceScan

namespace Project

variable {host : Host} {settings : Settings} {config : ProjectConfig} {past : List LogRecord}
  {root : Path} {project : Project}

/-- The path that an exclusion names, as it is written: seen from the root, without looking at
links. -/
def named (root : Path) (entry : String) : Path :=
  root.append (.ofString entry)

/-- The text of the path that an exclusion stands for: what it is resolved to, through links. The
scan compares its files with this text. -/
def StandsFor (host : Host) (root : Path) (entry text : String) : Prop :=
  ∃ found, host.resolve (named root entry).render = .ok found ∧
    Path.collapsed found.render = text

/-- The resolved exclusions are what the exclusions stand for. -/
theorem mem_resolveAll_iff {entries texts : List String}
    (h : resolveAll host root entries = .ok texts) (text : String) :
    text ∈ texts.map Path.collapsed ↔ ∃ entry ∈ entries, StandsFor host root entry text := by
  constructor
  · intro htext
    obtain ⟨resolved, hresolved, rfl⟩ := List.mem_map.mp htext
    obtain ⟨entry, hentry, hresult⟩ := Results.exists_of_mem_mapM h hresolved
    obtain ⟨found, hfound, rfl⟩ := Results.map_eq_ok.mp hresult
    exact ⟨entry, hentry, found, resolveIn_eq_ok_iff.mp hfound, rfl⟩
  · rintro ⟨entry, hentry, found, hfound, rfl⟩
    have hresult : (resolveIn host root entry).map Path.render = .ok found.render :=
      Results.map_eq_ok.mpr ⟨found, resolveIn_eq_ok_iff.mpr hfound, rfl⟩
    exact List.mem_map_of_mem (Results.mem_of_mapM h hentry hresult)

/-- A file of a project is found below a source directory, and no exclusion stands for it or for the
directory that it stands in. -/
theorem Built.mem_files_iff (hbuilt : Built host settings config root project)
    (htree : host.tree.IsStorable) (hhere : host.here.IsProper) {file : String} :
    file ∈ project.files ↔
      (∃ directory ∈ project.sourceDirs,
        (project.scan settings).withoutExclusions.Finds host (Path.collapsed directory) file) ∧
      (∀ entry ∈ config.excludeFiles, ¬ StandsFor host root entry file) ∧
      ∀ entry ∈ config.excludeDirs, ¬ StandsFor host root entry (Path.directoryOf file) := by
  have hfile := mem_resolveAll_iff hbuilt.excludeFiles file
  have hdirectory := mem_resolveAll_iff hbuilt.excludeDirs (Path.directoryOf file)
  have hplain (directory : String) (hmem : directory ∈ project.sourceDirs) :
      Path.EndsPlain (Path.collapsed directory) := by
    have haccepts := (hbuilt.mem_sourceDirs directory).mp hmem
    have hnull := null_notMem_of_acceptsDir ⟨htree.toIsSound, hhere⟩ haccepts
    exact (Path.isSound_ofString hnull).collapse.endsPlain
  have hfinds (directory : String) (hmem : directory ∈ project.sourceDirs) :
      (project.scan settings).Finds host (Path.collapsed directory) file ↔
        (project.scan settings).withoutExclusions.Finds host (Path.collapsed directory) file ∧
        (∀ entry ∈ config.excludeFiles, ¬ StandsFor host root entry file) ∧
        ∀ entry ∈ config.excludeDirs, ¬ StandsFor host root entry (Path.directoryOf file) := by
    rw [SourceScan.finds_iff htree (hplain directory hmem)]
    refine and_congr_right fun _ => and_congr ?_ ?_
    · rw [scan, hfile]
      simp
    · rw [scan, hdirectory]
      simp
  rw [hbuilt.files, Text.mem_sortedSet, List.mem_flatMap]
  constructor
  · rintro ⟨directory, hmem, hlisted⟩
    have hroom := hbuilt.notDeep directory hmem
    obtain ⟨hfound, hkept⟩ :=
      (hfinds directory hmem).mp ((SourceScan.mem_listed_iff_finds htree hroom).mp hlisted)
    exact ⟨⟨directory, hmem, hfound⟩, hkept⟩
  · rintro ⟨⟨directory, hmem, hfound⟩, hkept⟩
    have hroom := hbuilt.notDeep directory hmem
    exact ⟨directory, hmem, (SourceScan.mem_listed_iff_finds htree hroom).mpr
      ((hfinds directory hmem).mpr ⟨hfound, hkept⟩)⟩

/-- What an exclusion that is written without links stands for is what it names. Only a link on its
way makes the two differ. -/
theorem standsFor_named (hroot : root.IsSound) {entries texts : List String} {entry : String}
    (hresolved : resolveAll host root entries = .ok texts) (hentry : entry ∈ entries)
    (h : host.tree.IsPlain (named root entry)) :
    StandsFor host root entry (named root entry).collapse.render := by
  obtain ⟨found, hfound⟩ := exists_resolveAll_eq_ok_iff.mp ⟨texts, hresolved⟩ entry hentry
  have hnull : '\x00' ∉ entry.toList := by
    intro hmem
    obtain ⟨fault, hfault⟩ := exists_nullFault hroot h hmem
    rw [resolveIn_eq_fault_iff.mpr hfault] at hfound
    cases hfound
  have hsound : (named root entry).IsSound := hroot.append (Path.isSound_ofString hnull)
  refine ⟨_, FileTree.resolve_of_isPlain hsound h host.here, ?_⟩
  have hanchor : (named root entry).collapse.anchor = .root := h.anchor
  have hrender : (named root entry).collapse.render =
      Place.render (named root entry).collapse.parts := by
    rw [Path.render, hanchor]
    rfl
  have hproper := hsound.isProper_collapse (by simp [h.anchor])
  rw [hrender, Place.collapsed_render hproper]

/-- A file of a project is found below a source directory, and no exclusion stands for it or for the
directory that it stands in. So an exclusion that is written without links takes away the file, or
the files of the directory, that it names. -/
theorem build_keeps_exclusions (htree : host.tree.IsStorable) (hhere : host.here.IsProper)
    (hbuild : (build host settings config past).outcome = .ok project) :
    ∃ root, resolveRoot host config.root = .ok root ∧
      (∀ file, file ∈ project.files ↔
        (∃ directory ∈ project.sourceDirs,
          (project.scan settings).withoutExclusions.Finds host (Path.collapsed directory) file) ∧
        (∀ entry ∈ config.excludeFiles, ¬ StandsFor host root entry file) ∧
        ∀ entry ∈ config.excludeDirs, ¬ StandsFor host root entry (Path.directoryOf file)) ∧
      (∀ entry ∈ config.excludeFiles, host.tree.IsPlain (named root entry) →
        (named root entry).collapse.render ∉ project.files) ∧
      ∀ entry ∈ config.excludeDirs, host.tree.IsPlain (named root entry) →
        ∀ file ∈ project.files, Path.directoryOf file ≠ (named root entry).collapse.render := by
  obtain ⟨root, hbuilt⟩ := exists_built hbuild
  have hroot := isSound_of_resolveRoot ⟨htree.toIsSound, hhere⟩ hbuilt.resolved
  refine ⟨root, hbuilt.resolved, fun file => hbuilt.mem_files_iff htree hhere,
    fun entry hentry hplain hfile => ?_, fun entry hentry hplain file hfile hdirectory => ?_⟩
  · have hstands := standsFor_named hroot hbuilt.excludeFiles hentry hplain
    exact ((hbuilt.mem_files_iff htree hhere).mp hfile).2.1 entry hentry hstands
  · have hstands := standsFor_named hroot hbuilt.excludeDirs hentry hplain
    rw [← hdirectory] at hstands
    exact ((hbuilt.mem_files_iff htree hhere).mp hfile).2.2 entry hentry hstands

/-- A project in the directory `p` with a file and a link to it. -/
def aliasHost : Host where
  tree := ⟨[(["p"], .directory), (["p", "src"], .directory), (["p", "src", "Real.elm"], .file []),
    (["p", "src", "Link.elm"], .link "Real.elm")]⟩
  here := []
  accountHome := "/"
  environment := []
  time := ""

/-- A package in this tree that excludes a file. The text of the exclusion is given, and how it is
written is what matters. -/
def aliasConfig (entry : String) : ProjectConfig :=
  { kind := some "package", root := "/p", excludeFiles := [entry],
    exposed := .ungrouped (.one "Real") }

/-- The root of the package. No link is on its way, so it is resolved to itself. -/
def aliasRoot : Path :=
  { anchor := .root, parts := ["p"] }

/-- The tree of this package is one that a file system can hold. -/
theorem isStorable_aliasHost : aliasHost.tree.IsStorable := by
  decide

/-- The root of the package is resolved to its directory. -/
theorem resolveRoot_aliasHost : resolveRoot aliasHost "/p" = .ok aliasRoot := by
  have htext : Path.tidy "/p" = Place.render ["p"] := by decide +kernel
  rw [resolveRoot, htext]
  exact FileTree.resolve_render (by decide) (by decide) []

/-- The source directory is accepted, since no link leads to it. -/
theorem acceptsDir_aliasHost : AcceptsDir aliasHost aliasRoot ["src"] "/p/src" := by
  have hfound : resolveIn aliasHost aliasRoot "src" =
      .ok { anchor := .root, parts := ["p", "src"] } := by
    have htext : (aliasRoot.append (.ofString "src")).render = Place.render ["p", "src"] := by
      decide +kernel
    rw [resolveIn_eq_ok_iff, htext]
    exact FileTree.resolve_render (by decide) (by decide) []
  exact ⟨"src", by simp, _, pathWithin?_eq_some_iff.mpr ⟨hfound, rfl, by decide⟩,
    by decide +kernel⟩

/-- The link stands for the file that it leads to, because an exclusion is resolved through
links. -/
theorem resolve_link_aliasHost :
    aliasHost.resolve (named aliasRoot "src/Link.elm").render =
      .ok { anchor := .root, parts := ["p", "src", "Real.elm"] } := by
  have htext : (named aliasRoot "src/Link.elm").render = "/p/src/Link.elm" := by decide +kernel
  have hsteps : FileTree.splitSteps "/p/src/Link.elm" = ["", "p", "src", "Link.elm"] := by
    decide +kernel
  have htarget : FileTree.splitSteps "Real.elm" = ["Real.elm"] := by decide +kernel
  have hfree : aliasHost.tree.LinkFree ["p", "src"] := by decide
  have hlink : aliasHost.tree.entryAt? ["p", "src", "Link.elm"] = some (.link "Real.elm") := by
    decide
  obtain ⟨there, hinner, hplace⟩ : ∃ there,
      aliasHost.tree.settle 970 [((FileTree.Waypoint.root.down "p").down "src").down "Link.elm"]
        ((FileTree.Waypoint.root.down "p").down "src") (FileTree.splitSteps "Real.elm") =
          .fully there ∧ there.place = ["p", "src", "Real.elm"] := by
    rw [htarget]
    exact FileTree.settle_linkFree (by decide) (by decide)
  have hsettled : aliasHost.tree.settle 970 [] .root ["", "p", "src", "Link.elm"] =
      .fully there := by
    rw [FileTree.settle, if_pos (.inl rfl),
      FileTree.settle_of_entry (by decide) (hfree ["p"] (by simp)),
      FileTree.settle_of_entry (by decide) (hfree ["p", "src"] List.prefix_rfl),
      FileTree.settle_of_link (by decide) hlink (by simp) (by simp) hinner, FileTree.settle]
  rw [htext, ← hplace]
  refine FileTree.resolve_of_settle (hplace ▸ by decide) (hplace ▸ by decide) ?_
  rw [hsteps]
  exact hsettled

/-- The package is built, whichever entry it excludes, if the entry can be resolved. -/
theorem exists_build_aliasHost {entry : String} {found : Path}
    (h : aliasHost.resolve (named aliasRoot entry).render = .ok found) :
    ∃ project, (build aliasHost .default (aliasConfig entry) []).outcome = .ok project := by
  have hexposed : (aliasConfig entry).exposed.names ≠ [] := by
    have hnames : ExposedModules.names (.ungrouped (.one "Real")) ≠ [] := by decide +kernel
    exact hnames
  obtain ⟨excluded, hexcluded⟩ : ∃ excluded,
      resolveAll aliasHost aliasRoot [entry] = .ok excluded := by
    rw [exists_resolveAll_eq_ok_iff]
    simpa using ⟨found, resolveIn_eq_ok_iff.mpr h⟩
  have hdirs : ∀ directory ∈ ["src"], '\x00' ∉ directory.toList := by decide
  have hroom : aliasHost.HasRoom Settings.default.followLinks :=
    Host.hasRoom (by decide) (by decide)
  obtain ⟨project, hproject, -⟩ := exists_build_eq_ok_of_package
    ⟨isStorable_aliasHost.toIsSound, Place.isProper_nil⟩ rfl hexposed resolveRoot_aliasHost
    hdirs ⟨_, acceptsDir_aliasHost⟩ hroom rfl hexcluded
  exact ⟨project, hproject []⟩

/-- The link leads to the file next to it, and one link less can be followed behind it. -/
theorem followLink_aliasHost :
    aliasHost.tree.followLink FileTree.maxLinks ["p", "src"] "Real.elm" =
      .ok { place := ["p", "src", "Real.elm"], entry := .file [], links := 39 } := by
  have hsteps : FileTree.stepsOf "Real.elm" = ["Real.elm"] := by decide +kernel
  have hstart : FileTree.startOf ["p", "src"] "Real.elm" = ["p", "src"] := by decide +kernel
  have hentry : aliasHost.tree.entryAt? (["p", "src"] ++ ["Real.elm"]) = some (.file []) := by
    decide
  rw [FileTree.maxLinks, FileTree.followLink, hsteps, hstart,
    FileTree.follow_name (by decide) (by decide), hentry]
  rfl

/-- The scan of the package finds the link, and finds it by its own path, as it does not resolve
what it finds. -/
theorem finds_link_aliasHost (project : Project) :
    (project.scan .default).withoutExclusions.Finds aliasHost "/p/src" "/p/src/Link.elm" := by
  have hlocate : aliasHost.tree.locate aliasHost.here "/p/src" =
      .ok { place := ["p", "src"], entry := .directory, links := FileTree.maxLinks } := by
    have hat : aliasHost.tree.IsAt ["p", "src"] .directory := by decide
    exact hat.locate_eq (by decide) (by decide) []
  have hentry : aliasHost.tree.entryAt? (["p", "src"] ++ ["Link.elm"]) =
      some (.link "Real.elm") := by decide
  have hlinked := FileTree.isDirectory_child_iff isStorable_aliasHost hlocate hentry
  have hextension : ".elm".toList <:+ "Link.elm".toList := by decide
  have htext : "/p/src/Link.elm" = Path.child "/p/src" "Link.elm" := by decide +kernel
  rw [htext]
  refine SourceScan.finds_of_leaf rfl hlocate (fun name hdirectory => ?_) ?_
  · have hmem := FileTree.mem_entries_of_entryAt? (by simp) hdirectory
    simp [aliasHost] at hmem
  · refine ⟨⟨_, (FileTree.hasEntry_iff hlocate).mpr hentry, by simp, ?_⟩, hextension,
      List.not_mem_nil, List.not_mem_nil⟩
    rw [hlinked]
    simp [followLink_aliasHost]

/-- The link is a file of the package if the exclusion stands for the file that it leads to. -/
theorem link_mem_files_aliasHost {entry : String} {project : Project}
    (h : aliasHost.resolve (named aliasRoot entry).render =
      .ok { anchor := .root, parts := ["p", "src", "Real.elm"] })
    (hbuild : (build aliasHost .default (aliasConfig entry) []).outcome = .ok project) :
    "/p/src/Link.elm" ∈ project.files := by
  obtain ⟨root, hbuilt⟩ := exists_built hbuild
  obtain rfl := Except.ok.inj (hbuilt.resolved.symm.trans resolveRoot_aliasHost)
  have hcollapsed : Path.collapsed "/p/src" = "/p/src" := by decide +kernel
  have hother : Path.collapsed (Path.render
      { anchor := .root, parts := ["p", "src", "Real.elm"] }) ≠ "/p/src/Link.elm" := by
    decide +kernel
  refine (hbuilt.mem_files_iff isStorable_aliasHost Place.isProper_nil).mpr
    ⟨?_, ?_, by simp [aliasConfig]⟩
  · refine ⟨"/p/src", (hbuilt.mem_sourceDirs _).mpr acceptsDir_aliasHost, ?_⟩
    rw [hcollapsed]
    exact finds_link_aliasHost project
  · intro other hentry
    obtain rfl := List.mem_singleton.mp hentry
    rintro ⟨found, hfound, hstands⟩
    obtain rfl := Except.ok.inj (hfound.symm.trans h)
    exact hother hstands

/-- An exclusion that is written with double dots takes away the file that it names, but not a link
to that file. -/
theorem build_keeps_exclusions_of_aliasHost :
    aliasHost.tree.IsStorable ∧ ∃ project,
      (build aliasHost .default (aliasConfig "src/../src/Real.elm") []).outcome = .ok project ∧
        "/p/src/Real.elm" ∉ project.files ∧ "/p/src/Link.elm" ∈ project.files := by
  have hplain : aliasHost.tree.IsPlain (named aliasRoot "src/../src/Real.elm") := by decide +kernel
  have hsound : (named aliasRoot "src/../src/Real.elm").IsSound :=
    (isSound_of_resolveRoot ⟨isStorable_aliasHost.toIsSound, Place.isProper_nil⟩
      resolveRoot_aliasHost).append (Path.isSound_ofString (by decide))
  have hcollapse : (named aliasRoot "src/../src/Real.elm").collapse =
      { anchor := .root, parts := ["p", "src", "Real.elm"] } := by decide +kernel
  have hresolve : aliasHost.resolve (named aliasRoot "src/../src/Real.elm").render =
      .ok { anchor := .root, parts := ["p", "src", "Real.elm"] } :=
    (FileTree.resolve_of_isPlain hsound hplain aliasHost.here).trans (congrArg _ hcollapse)
  obtain ⟨project, hproject⟩ := exists_build_aliasHost hresolve
  obtain ⟨root, hroot, -, hfiles, -⟩ :=
    build_keeps_exclusions isStorable_aliasHost Place.isProper_nil hproject
  obtain rfl := Except.ok.inj (hroot.symm.trans resolveRoot_aliasHost)
  have hkept := hfiles "src/../src/Real.elm" (by simp [aliasConfig]) hplain
  refine ⟨isStorable_aliasHost, project, hproject, ?_, link_mem_files_aliasHost hresolve hproject⟩
  rw [hcollapse] at hkept
  exact hkept

/-- An exclusion that names a link keeps the link: what is excluded is the file that the link leads
to, and this is no file that the scan lists. -/
theorem excluded_link_is_kept :
    ∃ project, (build aliasHost .default (aliasConfig "src/Link.elm") []).outcome = .ok project ∧
      resolveRoot aliasHost (aliasConfig "src/Link.elm").root = .ok aliasRoot ∧
        (named aliasRoot "src/Link.elm").collapse.render ∈ project.files := by
  have hnamed : (named aliasRoot "src/Link.elm").collapse.render = "/p/src/Link.elm" := by
    decide +kernel
  obtain ⟨project, hproject⟩ := exists_build_aliasHost resolve_link_aliasHost
  refine ⟨project, hproject, resolveRoot_aliasHost, ?_⟩
  rw [hnamed]
  exact link_mem_files_aliasHost resolve_link_aliasHost hproject

end Project

end ElmReach
