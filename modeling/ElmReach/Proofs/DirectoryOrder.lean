import ElmReach.Proofs.BuildStages
import ElmReach.Proofs.DeepestDir
import ElmReach.Proofs.InsideRoot
import ElmReach.Proofs.TwoRuns

/-!
# The order of source directories

Two configurations whose source directories resolve to the same set of accepted directories make the
same project, whatever the order, the repetitions and the spellings of the directories: the scan
lists a set of files, and the deepest source directory of a file depends on a set of directories. So
the two builds agree step by step, and so do the analyses of the two projects.
-/

namespace ElmReach

namespace Project

section Accept

variable {host : Host} {settings : Settings} {config : ProjectConfig} {root : Path}

/-- A directory of the list cannot be asked for, so that accepting directories stops there. -/
def Stops (host : Host) (root : Path) (declared : List String) : Prop :=
  ∃ directory ∈ declared, ∃ failure, pathWithin? host root directory = .error failure

/-- The directories of two lists resolve to the same set of accepted directories. If a directory of
one list cannot be asked for, there is one in the other list, too. -/
structure DeclaresSame (host : Host) (root : Path) (declared other : List String) : Prop where
  stops_iff : Stops host root declared ↔ Stops host root other
  accepts_iff : ∀ text, AcceptsDir host root declared text ↔ AcceptsDir host root other text

/-- Two lists hold the same directories, all of which can be asked for. How often and in which order
they are listed is left open. -/
structure SameDirs (dirs others : List String) : Prop where
  mem_iff : ∀ text, text ∈ dirs ↔ text ∈ others
  noNull : ∀ text ∈ dirs, '\x00' ∉ text.toList

/-- Directories without the character of code zero do not stop a build: each is accepted or
refused. -/
theorem not_stops_of_noNull {declared : List String} (hhost : host.IsSound)
    (hroot : root.IsSound) (h : ∀ directory ∈ declared, '\x00' ∉ directory.toList) :
    ¬ Stops host root declared := by
  rintro ⟨directory, hdirectory, failure, hfailure⟩
  obtain ⟨answer, hanswer⟩ := exists_pathWithin?_eq_ok hhost hroot (h directory hdirectory)
  rw [hanswer] at hfailure
  cases hfailure

/-- Only the character of code zero keeps a directory from being asked for. -/
theorem exists_null_of_pathWithin? {directory : String} {failure : Failure}
    (h : pathWithin? host root directory = .error failure) :
    ∃ path, failure = .fault (.file .nullByte path) := by
  unfold pathWithin? resolveIn at h
  split at h
  · cases h
  · cases h
  · next fault hfault =>
    split at hfault
    · cases hfault
    · next path _ =>
      cases hfault
      exact ⟨path, (Except.error.inj h).symm⟩
    · cases hfault

/-- Accepting directories stops at the first one that cannot be asked for. -/
theorem exists_hasOutcome_acceptDirs_of_stops {declared : List String}
    (h : Stops host root declared) (accepted : List String) :
    ∃ path, (acceptDirs host root accepted declared).HasOutcome
      (.error (.fault (.file .nullByte path))) := by
  induction declared generalizing accepted with
  | nil =>
    obtain ⟨directory, hdirectory, -⟩ := h
    cases hdirectory
  | cons directory rest ih =>
    cases hanswer : pathWithin? host root directory with
    | error failure =>
      obtain ⟨path, rfl⟩ := exists_null_of_pathWithin? hanswer
      exact ⟨path, (Traced.hasOutcome_ofOutcome hanswer).stop _⟩
    | ok answer =>
      have hrest : Stops host root rest := by
        obtain ⟨other, hother, failure, hfailure⟩ := h
        rcases List.mem_cons.mp hother with rfl | hother
        · rw [hanswer] at hfailure
          cases hfailure
        · exact ⟨other, hother, failure, hfailure⟩
      have hwithin := Traced.hasOutcome_ofOutcome hanswer
      cases answer with
      | none =>
        obtain ⟨path, hpath⟩ := ih hrest accepted
        exact ⟨path, hwithin.after ((Traced.hasOutcome_say _ _ _).after hpath)⟩
      | some found =>
        obtain ⟨path, hpath⟩ := ih hrest
          (if found.render ∈ accepted then accepted else accepted ++ [found.render])
        exact ⟨path, hwithin.after hpath⟩

/-- If the declared directories are accepted alike, two builds find the same set of source
directories, or both find none and say so. -/
theorem agree_sourceDirsOf (hhost : host.IsSound) {declared other : List String}
    (h : DeclaresSame host root declared other) (hstops : ¬ Stops host root declared) :
    Traced.Agree SameDirs (sourceDirsOf host root declared) (sourceDirsOf host root other) := by
  have hwithin {declared : List String} (hstops : ¬ Stops host root declared) (directory : String)
      (hdirectory : directory ∈ declared) :
      ∃ answer, pathWithin? host root directory = .ok answer := by
    cases hanswer : pathWithin? host root directory with
    | error failure => exact absurd ⟨directory, hdirectory, failure, hanswer⟩ hstops
    | ok answer => exact ⟨answer, rfl⟩
  obtain ⟨dirs, hdirs⟩ := exists_hasOutcome_acceptDirs (hwithin hstops) []
  obtain ⟨others, hothers⟩ :=
    exists_hasOutcome_acceptDirs (hwithin (mt h.stops_iff.mpr hstops)) []
  have hmem (text : String) : text ∈ dirs ↔ AcceptsDir host root declared text := by
    simpa using mem_acceptDirs (hdirs [])
  have hsame : SameDirs dirs others := by
    refine ⟨fun text => ?_,
      fun text htext => null_notMem_of_acceptsDir hhost ((hmem text).mp htext)⟩
    rw [hmem, h.accepts_iff]
    simpa using (mem_acceptDirs (hothers [])).symm
  have hempty : dirs.isEmpty = others.isEmpty := by
    rw [Bool.eq_iff_iff, List.isEmpty_iff, List.isEmpty_iff, List.eq_nil_iff_forall_not_mem,
      List.eq_nil_iff_forall_not_mem]
    exact forall_congr' fun text => not_congr (hsame.mem_iff text)
  have hboth : Traced.Agree (fun left right => left = dirs ∧ right = others)
      (acceptDirs host root [] declared) (acceptDirs host root [] other) :=
    hdirs.agree hothers ⟨rfl, rfl⟩
  refine hboth.bind fun _ _ hvalues => ?_
  rw [hvalues.1, hvalues.2, hempty]
  split
  · exact Traced.agree_fail _
  · exact Traced.agree_pure hsame

end Accept

section Build

variable {host : Host} {settings : Settings} {config : ProjectConfig} {root : Path}
  {dirs others : List String}

/-- The two projects differ at most in the order and the repetition of their source directories. -/
def SameProject (project twin : Project) : Prop :=
  ∃ dirs, twin = { project with sourceDirs := dirs } ∧ SameDirs project.sourceDirs dirs

/-- Reading the entry module depends on the source directories only through their set, since the
deepest one above the entry file is looked for. -/
theorem agree_readEntry (h : SameDirs dirs others) {path : String} (hlog : host.LogLeaves path) :
    Traced.Agree Eq (readEntry host settings dirs path) (readEntry host settings others path) := by
  unfold readEntry
  rw [containingDir_congr h.mem_iff path]
  refine (Traced.agree_ofOutcome _).bind fun sourceRoot _ hroot => ?_
  rw [hroot.2]
  exact (SourceModule.agree_read hlog _ _).mapFailure _

/-- What a scan comes to depends on its directories only through their set. -/
theorem agree_scan (h : SameDirs dirs others) (scan : SourceScan) :
    Traced.Agree Eq (scan.run host dirs) (scan.run host others) := by
  intro past later
  rw [SourceScan.hasOutcome_run, SourceScan.hasOutcome_run,
    SourceScan.outcome_congr h.mem_iff h.noNull]
  exact Traced.sameOutcome_eq_iff.mpr rfl

/-- A scan of the same directories completes the same project, since the files are sorted when they
are listed. -/
theorem agree_scanned (h : SameDirs dirs others) (shape : ProjectShape) :
    Traced.Agree SameProject (scanned host settings config root dirs shape)
      (scanned host settings config root others shape) := by
  refine (Traced.agree_ofOutcome _).bind fun excludeDirs _ hdirs => ?_
  rw [hdirs.2]
  refine (Traced.agree_ofOutcome _).bind fun excludeFiles _ hfiles => ?_
  rw [hfiles.2]
  exact (agree_scan h _).bind fun files _ hsame =>
    Traced.agree_pure ⟨others, by rw [hsame], h⟩

variable {other : List String}

/-- Two failures are the same, or both are about a path that cannot be asked for; what is said of
such a path does not name it. -/
def SameFailure (failure other : Failure) : Prop :=
  failure = other ∨ ∃ path path',
    failure = .fault (.file .nullByte path) ∧ other = .fault (.file .nullByte path')

/-- With a directory that cannot be asked for in each configuration, both builds stop alike. -/
theorem exists_sameFailure_build (hroot : resolveRoot host config.root = .ok root)
    (hstops : Stops host root config.sourceDirs) (hother : Stops host root other) :
    ∃ failure failure', (build host settings config).HasOutcome (.error failure) ∧
      (build host settings { config with sourceDirs := other }).HasOutcome (.error failure') ∧
      SameFailure failure failure' := by
  obtain ⟨path, hdirs⟩ := exists_hasOutcome_acceptDirs_of_stops hstops []
  obtain ⟨path', hothers⟩ := exists_hasOutcome_acceptDirs_of_stops hother []
  have hresolved :
      (Traced.ofOutcome ((resolveRoot host config.root).mapError Failure.fault)).HasOutcome
        (.ok root) := Traced.hasOutcome_ofOutcome (Results.mapError_eq_ok.mpr hroot)
  have hsame : SameFailure (.fault (.file .nullByte path)) (.fault (.file .nullByte path')) :=
    .inr ⟨path, path', rfl, rfl⟩
  unfold build
  dsimp only
  split
  · unfold application
    dsimp only
    split
    · exact ⟨_, _, Traced.hasOutcome_fail _, Traced.hasOutcome_fail _, .inl rfl⟩
    · exact ⟨_, _, hresolved.after ((hdirs.stop _).stop _),
        hresolved.after ((hothers.stop _).stop _), hsame⟩
  · unfold package
    dsimp only
    split
    · exact ⟨_, _, Traced.hasOutcome_fail _, Traced.hasOutcome_fail _, .inl rfl⟩
    · exact ⟨_, _, hresolved.after ((hdirs.stop _).stop _),
        hresolved.after ((hothers.stop _).stop _), hsame⟩
  · exact ⟨_, _, Traced.hasOutcome_fail _, Traced.hasOutcome_fail _, .inl rfl⟩

/-- Two configurations whose source directories are accepted as the same set build the same
project. -/
theorem agree_build (hhost : host.IsSound)
    (hdirs : ∀ root, resolveRoot host config.root = .ok root →
      DeclaresSame host root config.sourceDirs other)
    (hstops : ∀ root, resolveRoot host config.root = .ok root →
      ¬ Stops host root config.sourceDirs)
    (hentry : ∀ root found, resolveRoot host config.root = .ok root →
      resolveIn host root (config.entryFile.getD "") = .ok found → host.LogLeaves found.render) :
    Traced.Agree SameProject (build host settings config)
      (build host settings { config with sourceDirs := other }) := by
  have hsources (root : Path)
      (h : (resolveRoot host config.root).mapError Failure.fault = .ok root) :
      resolveRoot host config.root = .ok root ∧
        Traced.Agree SameDirs (sourceDirsOf host root config.sourceDirs)
          (sourceDirsOf host root other) := by
    have hroot := Results.mapError_eq_ok.mp h
    exact ⟨hroot, agree_sourceDirsOf hhost (hdirs root hroot) (hstops root hroot)⟩
  have happlication : Traced.Agree SameProject (application host settings config)
      (application host settings { config with sourceDirs := other }) := by
    unfold application
    dsimp only
    split
    · exact Traced.agree_fail _
    · refine (Traced.agree_ofOutcome _).bind fun root _ hroot => ?_
      rw [hroot.2]
      obtain ⟨hresolved, hsame⟩ := hsources root hroot.1
      refine hsame.bind fun dirs others hdirs => ?_
      refine (Traced.agree_ofOutcome _).bind fun found _ hfound => ?_
      rw [hfound.2]
      refine (agree_readEntry hdirs (hentry root found hresolved hfound.1)).bind fun entry _ h => ?_
      rw [← h]
      refine (agree_scanned hdirs (.application entry)).bind fun project twin hproject => ?_
      exact (Traced.agree_say _ _ _ _ _ _).bind fun _ _ _ => Traced.agree_pure hproject
  have hpackage : Traced.Agree SameProject (package host settings config)
      (package host settings { config with sourceDirs := other }) := by
    unfold package
    dsimp only
    split
    · exact Traced.agree_fail _
    · refine (Traced.agree_ofOutcome _).bind fun root _ hroot => ?_
      rw [hroot.2]
      refine (hsources root hroot.1).2.bind fun dirs others hdirs => ?_
      refine (agree_scanned hdirs _).bind fun project twin hproject => ?_
      exact (Traced.agree_say _ _ _ _ _ _).bind fun _ _ _ => Traced.agree_pure hproject
  unfold build
  dsimp only
  split
  · exact happlication
  · exact hpackage
  · exact Traced.agree_fail _

end Build

/-- The build of a configuration, or the analysis of its project, reads the file at a path: it is
the entry file, or a file of the project. -/
def ReadsFile (host : Host) (settings : Settings) (config : ProjectConfig) (path : String) : Prop :=
  (∃ root found, resolveRoot host config.root = .ok root ∧
    resolveIn host root (config.entryFile.getD "") = .ok found ∧ path = found.render) ∨
  ∃ past project, (build host settings config past).outcome = .ok project ∧ path ∈ project.files

/-- Only the set of the accepted source directories matters. Two configurations that differ only in
source directories that are accepted as the same set are built with the same failure, or as projects
with the same files, roots and entry module, and the analyses of these projects have the same
outcome. -/
theorem build_and_run_of_same_dirs {host : Host} {settings : Settings} {config : ProjectConfig}
    {other : List String} (hhost : host.IsSound)
    (hdirs : ∀ root, resolveRoot host config.root = .ok root →
      DeclaresSame host root config.sourceDirs other)
    (hlog : ∀ path, ReadsFile host settings config path → host.LogLeaves path)
    (past later : List LogRecord) :
    (∃ failure failure', (build host settings config past).outcome = .error failure ∧
      (build host settings { config with sourceDirs := other } later).outcome = .error failure' ∧
      SameFailure failure failure') ∨
    ∃ project twin, (build host settings config past).outcome = .ok project ∧
      (build host settings { config with sourceDirs := other } later).outcome = .ok twin ∧
      twin.files = project.files ∧ twin.roots = project.roots ∧ twin.shape = project.shape ∧
      ∀ past later,
        (Analysis.run twin (Loader.ofHost host settings twin) later).outcome =
          (Analysis.run project (Loader.ofHost host settings project) past).outcome := by
  by_cases hstops : ∃ root, resolveRoot host config.root = .ok root ∧
      Stops host root config.sourceDirs
  · obtain ⟨root, hroot, hstops⟩ := hstops
    obtain ⟨failure, failure', hfailure, hfailure', hsame⟩ :=
      exists_sameFailure_build hroot hstops ((hdirs root hroot).stops_iff.mp hstops)
    exact .inl ⟨failure, failure', hfailure past, hfailure' later, hsame⟩
  have hagree : Traced.Agree SameProject (build host settings config)
      (build host settings { config with sourceDirs := other }) :=
    agree_build hhost hdirs (fun root hroot h => hstops ⟨root, hroot, h⟩)
      fun root found hroot hfound => hlog _ (.inl ⟨root, found, hroot, hfound, rfl⟩)
  rcases Traced.exists_of_sameOutcome (hagree past later) with
    ⟨failure, hfailure, hfailure'⟩ | ⟨project, _, hproject, htwin, dirs, rfl, hdirs⟩
  · exact .inl ⟨failure, failure, hfailure, hfailure', .inl rfl⟩
  · refine .inr ⟨project, _, hproject, htwin, rfl, rfl, rfl, fun past' later' => ?_⟩
    have hload (path : String) (hpath : path ∈ project.files) :
        Traced.Agree Eq (Loader.ofHost host settings { project with sourceDirs := dirs } path)
          (Loader.ofHost host settings project path) := by
      have hleaves := hlog path (.inr ⟨past, project, hproject, hpath⟩)
      unfold Loader.ofHost sourceDirFor
      rw [containingDir_congr hdirs.mem_iff path]
      refine (Traced.agree_ofOutcome _).bind fun sourceRoot _ hroot => ?_
      rw [hroot.2]
      exact SourceModule.agree_read hleaves _ _
    exact Traced.sameOutcome_eq_iff.mp (Analysis.agree_run hload later' past')

/-- The two directories of the package in another order, one of them twice, the other one in a
roundabout way, and with a link that is refused, make the same project. -/
theorem build_and_run_of_respelled_dirs :
    ∃ project twin,
      (build linkedHost .default (linkedConfig ["src", "lib"]) []).outcome = .ok project ∧
      (build linkedHost .default (linkedConfig ["lib", "out", "lib/../src", "lib"]) []).outcome =
        .ok twin ∧
      twin.files = project.files ∧
      ∀ past later,
        (Analysis.run twin (Loader.ofHost linkedHost .default twin) later).outcome =
          (Analysis.run project (Loader.ofHost linkedHost .default project) past).outcome := by
  have hdeclared : ∀ directory ∈ ["src", "lib"], ∃ place, (directory, place) ∈ linkedDirs := by
    simp [linkedDirs]
  have hother : ∀ directory ∈ ["lib", "out", "lib/../src", "lib"],
      ∃ place, (directory, place) ∈ linkedDirs := by
    simp [linkedDirs]
  have hbelow : ∀ entry ∈ linkedDirs, ["p"] <+: entry.2 →
      entry.2 = ["p", "src"] ∨ entry.2 = ["p", "lib"] := by decide
  have hsame : DeclaresSame linkedHost linkedRoot ["src", "lib"]
      ["lib", "out", "lib/../src", "lib"] := by
    have hroot := isSound_of_resolveRoot isSound_linkedHost resolveRoot_linkedHost
    have hstops {declared : List String} (h : ∀ directory ∈ declared, '\x00' ∉ directory.toList) :
        ¬ Stops linkedHost linkedRoot declared := not_stops_of_noNull isSound_linkedHost hroot h
    refine ⟨iff_of_false (hstops (by decide)) (hstops (by decide)), fun text => ?_⟩
    rw [acceptsDir_linkedHost_iff hdeclared, acceptsDir_linkedHost_iff hother]
    constructor
    · rintro ⟨directory, -, place, hplace, hroot, rfl⟩
      rcases hbelow _ hplace hroot with rfl | rfl
      · exact ⟨"lib/../src", by decide, _, by decide, by decide, rfl⟩
      · exact ⟨"lib", by decide, _, by decide, by decide, rfl⟩
    · rintro ⟨directory, -, place, hplace, hroot, rfl⟩
      rcases hbelow _ hplace hroot with rfl | rfl
      · exact ⟨"src", by decide, _, by decide, by decide, rfl⟩
      · exact ⟨"lib", by decide, _, by decide, by decide, rfl⟩
  have hdirs (root : Path)
      (hroot : resolveRoot linkedHost (linkedConfig ["src", "lib"]).root = .ok root) :
      DeclaresSame linkedHost root ["src", "lib"] ["lib", "out", "lib/../src", "lib"] := by
    obtain rfl := Except.ok.inj (hroot.symm.trans resolveRoot_linkedHost)
    exact hsame
  have hlog (path : String)
      (_ : ReadsFile linkedHost .default (linkedConfig ["src", "lib"]) path) :
      linkedHost.LogLeaves path := Host.logLeaves_of_noFile rfl path
  obtain ⟨failure, -, hfailure, -⟩ | ⟨project, twin, hproject, htwin, hfiles, -, -, hrun⟩ :=
    build_and_run_of_same_dirs isSound_linkedHost hdirs hlog [] []
  · obtain ⟨project, hproject, -⟩ := exists_build_linkedHost hdeclared (by decide)
    rw [hproject []] at hfailure
    cases hfailure
  · exact ⟨project, twin, hproject, htwin, hfiles, hrun⟩

end Project

end ElmReach
