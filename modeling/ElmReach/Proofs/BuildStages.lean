import ElmReach.Project.Build
import ElmReach.Proofs.ScannedFiles

/-!
# The stages of a build

A project that is built has a resolved root, at least one source directory, which resolves to a path
below the root, and the files that a scan of these directories lists. An application also has an
entry module, which was read as the module of a file.
-/

namespace ElmReach

/-- The names in a host's file system are such as a file system can have, and so are those of the
working directory. What is said of paths on a host rests on this. -/
structure Host.IsSound (host : Host) : Prop where
  tree : host.tree.IsSound
  here : host.here.IsProper

/-- No walk runs out of room, whichever directory it starts from. -/
def Host.HasRoom (host : Host) (followLinks : Bool) : Prop :=
  ∀ directory,
    host.tree.visits followLinks host.room.directories host.here directory ≠ .error .tooDeep

/-- In a file system with short places only, no walk without links runs out of room. -/
theorem Host.hasRoom {host : Host} (hroom : 0 < host.room.directories)
    (h : ∀ item ∈ host.tree.entries, item.1.length < host.room.directories) : host.HasRoom false :=
  fun _ => FileTree.visits_ne_tooDeep hroom h

namespace Project

variable {host : Host} {settings : Settings} {config : ProjectConfig} {past : List LogRecord}
  {root : Path} {text : String}

/-- A declared directory resolves to a path at or below the root with this text. This is when a
build takes it as a source directory. -/
def AcceptsDir (host : Host) (root : Path) (declared : List String) (text : String) : Prop :=
  ∃ directory ∈ declared, ∃ found, pathWithin? host root directory = .ok (some found) ∧
    found.render = text

/-- A path below the root is resolved as its text is, followed from the root. -/
theorem resolveIn_eq_ok_iff {directory : String} {found : Path} :
    resolveIn host root directory = .ok found ↔
      host.resolve (root.append (.ofString directory)).render = .ok found := by
  unfold resolveIn
  split
  · next other hother => simp [hother]
  · next hnull => simp [hnull]
  · next hfault => simp [hfault]

/-- A path counts as within the root if it is resolved, and what it stands for is the root or lies
below it by its names. The texts are not compared, so a sibling whose name starts with that of the
root is outside. -/
theorem pathWithin?_eq_some_iff {directory : String} {found : Path} :
    pathWithin? host root directory = .ok (some found) ↔
      resolveIn host root directory = .ok found ∧ found.anchor = root.anchor ∧
        root.parts <+: found.parts := by
  unfold pathWithin? Path.partsBelow?
  constructor
  · intro h
    split at h
    · next other hother =>
      split at h
      · next hbelow =>
        obtain rfl := Option.some.inj (Except.ok.inj h)
        exact ⟨hother, by simpa using hbelow⟩
      · cases h
    · cases h
    · cases h
  · rintro ⟨hfound, hanchor, hbelow⟩
    rw [hfound]
    simp [hanchor, hbelow]

/-- The first declared directory is accepted on its own; the others do not depend on it. -/
theorem acceptsDir_cons {directory : String} {rest : List String} :
    AcceptsDir host root (directory :: rest) text ↔
      (∃ found, pathWithin? host root directory = .ok (some found) ∧ found.render = text) ∨
        AcceptsDir host root rest text := by
  simp [AcceptsDir]

/-- The accepted directories are those that resolve to a path at or below the root. -/
theorem mem_acceptDirs {accepted declared result : List String}
    (h : (acceptDirs host root accepted declared past).outcome = .ok result) :
    text ∈ result ↔ text ∈ accepted ∨ AcceptsDir host root declared text := by
  induction declared generalizing accepted past with
  | nil =>
    obtain rfl := Except.ok.inj h
    simp [AcceptsDir]
  | cons directory rest ih =>
    obtain ⟨answer, later, hanswer, hrest⟩ := Traced.outcome_bind_eq_ok h
    rw [Traced.outcome_ofOutcome] at hanswer
    rw [acceptsDir_cons]
    cases answer with
    | none =>
      obtain ⟨_, last, -, hrest⟩ := Traced.outcome_bind_eq_ok hrest
      rw [ih hrest]
      simp [hanswer]
    | some found =>
      rw [ih hrest]
      by_cases hknown : found.render ∈ accepted
      · simp only [if_pos hknown, hanswer, Except.ok.injEq, Option.some.injEq, exists_eq_left']
        constructor
        · exact fun h => h.imp_right .inr
        · rintro (h | rfl | h)
          · exact .inl h
          · exact .inl hknown
          · exact .inr h
      · simp [hknown, hanswer, or_assoc, eq_comm]

/-- A build has at least one source directory, and its source directories are the texts that are
accepted. How often and in which order they are declared is not kept. -/
theorem mem_sourceDirsOf {declared result : List String}
    (h : (sourceDirsOf host root declared past).outcome = .ok result) :
    result ≠ [] ∧ ∀ text, text ∈ result ↔ AcceptsDir host root declared text := by
  obtain ⟨accepted, later, haccepted, hresult⟩ := Traced.outcome_bind_eq_ok h
  split at hresult
  · cases hresult
  · next hne =>
    obtain rfl := Except.ok.inj hresult
    refine ⟨by simpa using hne, fun text => ?_⟩
    rw [mem_acceptDirs haccepted]
    simp

/-- A directory without the character of code zero is accepted or refused. -/
theorem exists_pathWithin?_eq_ok (hhost : host.IsSound) (hroot : root.IsSound) {directory : String}
    (h : '\x00' ∉ directory.toList) : ∃ answer, pathWithin? host root directory = .ok answer := by
  have hnull := (hroot.append (Path.isSound_ofString h)).null_notMem_render
  unfold pathWithin? resolveIn
  cases hresolve : host.resolve (root.append (.ofString directory)).render with
  | ok found => exact ⟨_, rfl⟩
  | error fault =>
    rcases FileTree.fault_eq_of_resolve hresolve with ⟨found, rfl⟩ | rfl | ⟨place, rfl⟩
    · exact ⟨none, rfl⟩
    · exact ⟨none, rfl⟩
    · exact absurd hresolve (FileTree.resolve_ne_nullByte hhost.tree hhost.here hnull place)

/-- A root that is resolved is made of names of entries. -/
theorem isSound_of_resolveRoot (hhost : host.IsSound) {path : String}
    (h : resolveRoot host path = .ok root) : root.IsSound := by
  obtain ⟨-, hproper⟩ := FileTree.isProper_of_resolve hhost.here h
  exact fun part hpart => .inr (hproper part hpart)

/-- If each declared directory is accepted or refused, accepting all of them comes to a list,
whatever has been reported before. -/
theorem exists_hasOutcome_acceptDirs {declared : List String}
    (h : ∀ directory ∈ declared, ∃ answer, pathWithin? host root directory = .ok answer)
    (accepted : List String) :
    ∃ result, (acceptDirs host root accepted declared).HasOutcome (.ok result) := by
  induction declared generalizing accepted with
  | nil => exact ⟨accepted, Traced.hasOutcome_pure accepted⟩
  | cons directory rest ih =>
    obtain ⟨⟨answer, hanswer⟩, hrest⟩ := List.forall_mem_cons.mp h
    have hwithin := Traced.hasOutcome_ofOutcome hanswer
    cases answer with
    | none =>
      obtain ⟨result, hresult⟩ := ih hrest accepted
      exact ⟨result, hwithin.after ((Traced.hasOutcome_say _ _ _).after hresult)⟩
    | some found =>
      obtain ⟨result, hresult⟩ := ih hrest
        (if found.render ∈ accepted then accepted else accepted ++ [found.render])
      exact ⟨result, hwithin.after hresult⟩

/-- The text of an accepted directory is that of a path which has been looked up, so a file system
can be asked for it again. -/
theorem null_notMem_of_acceptsDir (hhost : host.IsSound) {declared : List String} {text : String}
    (h : AcceptsDir host root declared text) : '\x00' ∉ text.toList := by
  obtain ⟨directory, -, found, hwithin, rfl⟩ := h
  have hfound := resolveIn_eq_ok_iff.mp (pathWithin?_eq_some_iff.mp hwithin).1
  obtain ⟨-, hproper⟩ := FileTree.isProper_of_resolve hhost.here hfound
  have hsound : found.IsSound := fun part hpart => .inr (hproper part hpart)
  exact hsound.null_notMem_render

/-- The scan that lists the files of a project. It has the extension and the links of the settings,
and the exclusions of the project. -/
def scan (project : Project) (settings : Settings) : SourceScan :=
  { excludeDirs := project.excludeDirs, excludeFiles := project.excludeFiles
    extension := settings.extension, followLinks := settings.followLinks }

/-- What a build with this root has gone through, stage by stage. All that is proved of a project
that is built is derived from this. -/
structure Built (host : Host) (settings : Settings) (config : ProjectConfig) (root : Path)
    (project : Project) : Prop where
  resolved : resolveRoot host config.root = .ok root
  rootText : project.root = root.render
  sourceDirs_ne_nil : project.sourceDirs ≠ []
  mem_sourceDirs : ∀ text, text ∈ project.sourceDirs ↔ AcceptsDir host root config.sourceDirs text
  excludeDirs : resolveAll host root config.excludeDirs = .ok project.excludeDirs
  excludeFiles : resolveAll host root config.excludeFiles = .ok project.excludeFiles
  files : project.files = Text.sortedSet (project.sourceDirs.flatMap fun directory =>
    (project.scan settings).listed host (Path.collapsed directory))
  notDeep : ∀ directory ∈ project.sourceDirs,
    ¬ (project.scan settings).Overflows host (Path.collapsed directory)
  entry : ∀ entry, project.shape = .application entry → ∃ path records,
    (readEntry host settings project.sourceDirs path records).outcome = .ok entry

/-- Without exclusions, the scan excludes nothing. It takes the same files as a scan of the settings
alone. -/
theorem Built.scan_eq {project : Project} (h : Built host settings config root project)
    (hdirs : config.excludeDirs = []) (hfiles : config.excludeFiles = []) :
    project.scan settings =
      { excludeDirs := [], excludeFiles := [], extension := settings.extension
        followLinks := settings.followLinks } := by
  have hnone : resolveAll host root [] = .ok [] := rfl
  have hexcludeDirs := h.excludeDirs
  have hexcludeFiles := h.excludeFiles
  rw [hdirs, hnone] at hexcludeDirs
  rw [hfiles, hnone] at hexcludeFiles
  rw [scan, ← Except.ok.inj hexcludeDirs, ← Except.ok.inj hexcludeFiles]

/-- A scan completes a project whose source directories and shape are known. -/
theorem built_of_scanned {sourceDirs : List String} {shape : ProjectShape} {project : Project}
    {before later : List LogRecord} (hroot : resolveRoot host config.root = .ok root)
    (hdirs : (sourceDirsOf host root config.sourceDirs before).outcome = .ok sourceDirs)
    (hentry : ∀ entry, shape = .application entry → ∃ path records,
      (readEntry host settings sourceDirs path records).outcome = .ok entry)
    (h : (Project.scanned host settings config root sourceDirs shape later).outcome = .ok project) :
    Built host settings config root project := by
  obtain ⟨excludeDirs, _, hexcludeDirs, h⟩ := Traced.outcome_bind_eq_ok h
  obtain ⟨excludeFiles, _, hexcludeFiles, h⟩ := Traced.outcome_bind_eq_ok h
  obtain ⟨files, _, hfiles, h⟩ := Traced.outcome_bind_eq_ok h
  obtain rfl := Except.ok.inj h
  exact
    { resolved := hroot
      rootText := rfl
      sourceDirs_ne_nil := (mem_sourceDirsOf hdirs).1
      mem_sourceDirs := (mem_sourceDirsOf hdirs).2
      excludeDirs := hexcludeDirs
      excludeFiles := hexcludeFiles
      files := SourceScan.run_eq_ok hfiles
      notDeep := fun _ => SourceScan.not_overflows_of_run hfiles
      entry := hentry }

/-- An application that is built has gone through all stages; its entry module comes from the entry
file. -/
theorem exists_built_of_application {project : Project}
    (h : (application host settings config past).outcome = .ok project) :
    ∃ root, Built host settings config root project := by
  unfold application at h
  split at h
  · cases h
  · obtain ⟨root, _, hroot, h⟩ := Traced.outcome_bind_eq_ok h
    obtain ⟨sourceDirs, _, hdirs, h⟩ := Traced.outcome_bind_eq_ok h
    obtain ⟨found, _, -, h⟩ := Traced.outcome_bind_eq_ok h
    obtain ⟨entry, _, hentry, h⟩ := Traced.outcome_bind_eq_ok h
    obtain ⟨whole, _, hwhole, h⟩ := Traced.outcome_bind_eq_ok h
    obtain ⟨_, _, -, h⟩ := Traced.outcome_bind_eq_ok h
    obtain rfl := Except.ok.inj h
    rw [Traced.outcome_ofOutcome] at hroot
    refine ⟨root, built_of_scanned (Results.mapError_eq_ok.mp hroot) hdirs ?_ hwhole⟩
    rintro other ⟨rfl⟩
    exact ⟨found.render, _, hentry⟩

/-- A package that is built has gone through all stages, and there is no entry module. -/
theorem exists_built_of_package {project : Project}
    (h : (package host settings config past).outcome = .ok project) :
    ∃ root, Built host settings config root project := by
  unfold package at h
  split at h
  · cases h
  · obtain ⟨root, _, hroot, h⟩ := Traced.outcome_bind_eq_ok h
    obtain ⟨sourceDirs, _, hdirs, h⟩ := Traced.outcome_bind_eq_ok h
    obtain ⟨whole, _, hwhole, h⟩ := Traced.outcome_bind_eq_ok h
    obtain ⟨_, _, -, h⟩ := Traced.outcome_bind_eq_ok h
    obtain rfl := Except.ok.inj h
    rw [Traced.outcome_ofOutcome] at hroot
    exact ⟨root, built_of_scanned (Results.mapError_eq_ok.mp hroot) hdirs (by simp) hwhole⟩

/-- A build is that of an application or of a package, or it fails for the kind of the project. -/
theorem build_cases (host : Host) (settings : Settings) (config : ProjectConfig) :
    build host settings config = application host settings config ∨
      build host settings config = package host settings config ∨
        ∃ error, build host settings config = .fail error := by
  unfold build
  split
  · exact .inl rfl
  · exact .inr (.inl rfl)
  · exact .inr (.inr ⟨_, rfl⟩)

/-- A project that is built has gone through all stages. Nothing but their results is known of it,
and this is enough for all that is said of projects. -/
theorem exists_built {project : Project}
    (h : (build host settings config past).outcome = .ok project) :
    ∃ root, Built host settings config root project := by
  rcases build_cases host settings config with heq | heq | ⟨error, heq⟩
  · exact exists_built_of_application (heq ▸ h)
  · exact exists_built_of_package (heq ▸ h)
  · rw [heq] at h
    cases h

/-- If the exclusions can be resolved and no walk runs out of room, a scan of directories that can
be asked for completes the project. -/
theorem exists_hasOutcome_scanned {sourceDirs excludeDirs excludeFiles : List String}
    (hexcludeDirs : resolveAll host root config.excludeDirs = .ok excludeDirs)
    (hexcludeFiles : resolveAll host root config.excludeFiles = .ok excludeFiles)
    (hdirs : ∀ directory ∈ sourceDirs, '\x00' ∉ directory.toList)
    (hroom : host.HasRoom settings.followLinks) (shape : ProjectShape) :
    ∃ project, (Project.scanned host settings config root sourceDirs shape).HasOutcome
      (.ok project) ∧ project.shape = shape := by
  let scan : SourceScan :=
    { excludeDirs, excludeFiles, extension := settings.extension
      followLinks := settings.followLinks }
  let files := Text.sortedSet (sourceDirs.flatMap fun directory =>
    scan.listed host (Path.collapsed directory))
  refine ⟨{ root := root.render, sourceDirs, excludeDirs, excludeFiles, files, shape }, ?_, rfl⟩
  have hoverflows (directory : String) : ¬ scan.Overflows host directory := hroom directory
  have hfiles : (scan.run host sourceDirs).HasOutcome (.ok files) := by
    rw [← SourceScan.outcome_eq_ok_iff.mpr ⟨fun directory hdirectory =>
      ⟨Path.null_notMem_collapsed (hdirs directory hdirectory), hoverflows _⟩, rfl⟩]
    exact SourceScan.hasOutcome_run scan host sourceDirs
  exact (Traced.hasOutcome_ofOutcome hexcludeDirs).after
    ((Traced.hasOutcome_ofOutcome hexcludeFiles).after
      (hfiles.after (Traced.hasOutcome_pure _)))

/-- A package is built if its root and its exclusions can be resolved, its directories can be asked
for, one of them is accepted, and no walk runs out of room. -/
theorem exists_build_eq_ok_of_package (hhost : host.IsSound) (hkind : config.kind = some "package")
    (hexposed : config.exposed.names ≠ []) (hroot : resolveRoot host config.root = .ok root)
    (hdirs : ∀ directory ∈ config.sourceDirs, '\x00' ∉ directory.toList)
    (haccepts : ∃ text, AcceptsDir host root config.sourceDirs text)
    (hroom : host.HasRoom settings.followLinks) {excludeDirs excludeFiles : List String}
    (hexcludeDirs : resolveAll host root config.excludeDirs = .ok excludeDirs)
    (hexcludeFiles : resolveAll host root config.excludeFiles = .ok excludeFiles) :
    ∃ project, (build host settings config).HasOutcome (.ok project) ∧
      project.shape = .package config.exposed.names := by
  obtain ⟨dirs, haccepted⟩ := exists_hasOutcome_acceptDirs (fun directory hdirectory =>
    exists_pathWithin?_eq_ok hhost (isSound_of_resolveRoot hhost hroot)
      (hdirs directory hdirectory)) []
  have hmem (text : String) : text ∈ dirs ↔ AcceptsDir host root config.sourceDirs text := by
    simpa using mem_acceptDirs (haccepted [])
  have hsources : (sourceDirsOf host root config.sourceDirs).HasOutcome (.ok dirs) := by
    obtain ⟨text, htext⟩ := haccepts
    refine haccepted.after ?_
    rw [List.isEmpty_eq_false_iff.mpr (List.ne_nil_of_mem ((hmem text).mpr htext))]
    exact Traced.hasOutcome_pure dirs
  obtain ⟨project, hproject, hshape⟩ := exists_hasOutcome_scanned hexcludeDirs hexcludeFiles
    (fun text htext => null_notMem_of_acceptsDir hhost ((hmem text).mp htext)) hroom
    (.package config.exposed.names)
  have hbuild : build host settings config = package host settings config := by
    simp only [build, hkind]
  refine ⟨project, ?_, hshape⟩
  rw [hbuild, package, List.isEmpty_eq_false_iff.mpr hexposed]
  have hroot' : (Traced.ofOutcome ((resolveRoot host config.root).mapError .fault)).HasOutcome
      (.ok root) := Traced.hasOutcome_ofOutcome (Results.mapError_eq_ok.mpr hroot)
  exact hroot'.after (hsources.after (hproject.after
    ((Traced.hasOutcome_say _ _ _).after (Traced.hasOutcome_pure project))))

end Project

end ElmReach
