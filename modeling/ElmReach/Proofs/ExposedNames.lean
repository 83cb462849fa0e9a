import ElmReach.Proofs.InsideRoot
import ElmReach.Proofs.Reachable
import ElmReach.Proofs.TwoRuns

/-!
# The names that a package exposes

Exposed modules may be written as one name, as a list or in groups, with blanks around the names,
more than once and in any order. Only the set of the names matters: packages that expose the same
names are built in the same way, and their analyses find the same modules and the same files.
-/

namespace ElmReach

/-- The members of a list, each one once, in the order in which they occur first. This determines
the list. -/
structure ListsOnce (all listed : List String) : Prop where
  mem_iff : ∀ name, name ∈ listed ↔ name ∈ all
  nodup : listed.Nodup
  ordered : listed.Pairwise fun name later => all.idxOf name < all.idxOf later

/-- Erasing repeated names lists each name once, in the order of the first occurrences. -/
theorem listsOnce_eraseDups (all : List String) : ListsOnce all all.eraseDups := by
  refine ⟨fun name => List.mem_eraseDups, Text.nodup_eraseDups all, ?_⟩
  -- From the back, so that the places of the earlier members stay as they are.
  induction all using List.reverseRecOn with
  | nil => simp
  | append_singleton earlier last ih =>
    have hplace {name : String} (hname : name ∈ earlier.eraseDups) :
        (earlier ++ [last]).idxOf name = earlier.idxOf name :=
      List.idxOf_append_of_mem (List.mem_eraseDups.mp hname)
    have hearlier : earlier.eraseDups.Pairwise fun name later =>
        (earlier ++ [last]).idxOf name < (earlier ++ [last]).idxOf later := by
      refine ih.imp_of_mem fun {name later} hname hlater hlt => ?_
      rwa [hplace hname, hplace hlater]
    rw [List.eraseDups_append]
    by_cases hlast : last ∈ earlier
    · simpa [List.removeAll, hlast] using hearlier
    · have hnew : ([last].removeAll earlier).eraseDups = [last] := by
        simp [List.removeAll, hlast, List.eraseDups_cons]
      rw [hnew]
      refine List.pairwise_append.mpr ⟨hearlier, List.pairwise_singleton _ _, ?_⟩
      intro name hname other hother
      rw [List.mem_singleton.mp hother, hplace hname, List.idxOf_append_of_notMem hlast]
      have hlt := List.idxOf_lt_length_of_mem (List.mem_eraseDups.mp hname)
      omega

namespace ExposedModules

/-- The names that are written, without the blanks around them and without those that are blank. -/
def given (exposed : ExposedModules) : List String :=
  (exposed.written.map Text.trimmed).filter (· ≠ "")

/-- Whatever form the exposed modules are given in, their names are listed once each, in the order
of their first occurrences. -/
theorem listsOnce_names (exposed : ExposedModules) : ListsOnce exposed.given exposed.names :=
  listsOnce_eraseDups exposed.given

/-- The names of exposed modules are those that are given, in whatever form. -/
theorem mem_names_iff {exposed : ExposedModules} {name : String} :
    name ∈ exposed.names ↔ name ∈ exposed.given :=
  List.mem_eraseDups

/-- No module is exposed exactly if no name is given, which is an error of a package. -/
theorem names_eq_nil_iff {exposed : ExposedModules} : exposed.names = [] ↔ exposed.given = [] := by
  simp only [List.eq_nil_iff_forall_not_mem, mem_names_iff]

/-- Two ways of writing the same set of names: single names, or groups with headings, in any order
and with repetitions. -/
def SameNames (exposed other : ExposedModules) : Prop :=
  ∀ name, name ∈ other.given ↔ name ∈ exposed.given

variable {exposed other : ExposedModules}

/-- Exposed modules with the same names list the same names. -/
theorem SameNames.mem_names (h : SameNames exposed other) (name : String) :
    name ∈ other.names ↔ name ∈ exposed.names := by
  rw [mem_names_iff, mem_names_iff, h]

/-- They are equally many. Neither list has a name twice, so their lengths are those of the same
set. -/
theorem SameNames.length_names (h : SameNames exposed other) :
    other.names.length = exposed.names.length :=
  Text.length_eraseDups_congr h

end ExposedModules

namespace Project

variable {host : Host} {settings : Settings} {config : ProjectConfig} {other : ExposedModules}

/-- The project as a package that exposes these modules. -/
def exposing (project : Project) (exposed : List String) : Project :=
  { project with shape := .package exposed }

/-- The two builds give the same package, except for the names that are exposed, or they end with
the same failure. -/
def SameBuild (exposed others : List String) :
    Except Failure Project → Except Failure Project → Prop :=
  Traced.SameOutcome fun project twin =>
    project.shape = .package exposed ∧ twin = project.exposing others

/-- The shape of a project does not count before the project is complete. -/
theorem mirrors_scanned (root : Path) (sourceDirs exposed others : List String) :
    Traced.Mirrors (SameBuild exposed others)
      (scanned host settings config root sourceDirs (.package exposed))
      (scanned host settings { config with exposed := other } root sourceDirs
        (.package others)) := by
  refine Traced.mirrors_after _ (fun _ => rfl) fun excludeDirs => ?_
  refine Traced.mirrors_after _ (fun _ => rfl) fun excludeFiles => ?_
  refine Traced.mirrors_after _ (fun _ => rfl) fun files => ?_
  exact fun past => ⟨rfl, rfl, rfl⟩

/-- Only the set of the exposed names counts when a package is built. They go into its shape, and
nothing else looks at them. -/
theorem mirrors_package (hsame : config.exposed.SameNames other) (hne : config.exposed.names ≠ []) :
    Traced.Mirrors (SameBuild config.exposed.names other.names) (package host settings config)
      (package host settings { config with exposed := other }) := by
  have hlength := hsame.length_names
  have hne' : other.names ≠ [] := by
    rw [← List.length_pos_iff] at hne ⊢
    omega
  rw [package, package]
  simp only [List.isEmpty_eq_false_iff.mpr hne, List.isEmpty_eq_false_iff.mpr hne',
    Bool.false_eq_true, if_false]
  refine Traced.mirrors_after _ (fun _ => rfl) fun root => ?_
  refine Traced.mirrors_after _ (fun _ => rfl) fun sourceDirs => ?_
  refine (mirrors_scanned root sourceDirs _ _).bind (fun _ => rfl) fun project twin htwin => ?_
  obtain ⟨hshape, rfl⟩ := htwin
  rw [hlength]
  exact fun past => ⟨rfl, hshape, rfl⟩

end Project

namespace ImportGraph

variable {adjacency : Assoc (List String)} {roots others : List String} {name : String}

/-- What is reached from some roots is reached from more roots. -/
theorem Reach.of_roots (h : Reach adjacency roots name) (hroots : ∀ root ∈ roots, root ∈ others) :
    Reach adjacency others name := by
  induction h with
  | root hroot => exact .root (hroots _ hroot)
  | step _ htarget hnode ih => exact .step ih htarget hnode

/-- Roots with the same members reach the same names. -/
theorem mem_reachable_congr (h : ∀ root, root ∈ others ↔ root ∈ roots) (name : String) :
    name ∈ reachable adjacency others ↔ name ∈ reachable adjacency roots := by
  rw [mem_reachable_iff, mem_reachable_iff]
  exact ⟨fun hname => hname.of_roots fun root => (h root).mp,
    fun hname => hname.of_roots fun root => (h root).mpr⟩

/-- Then they reach equally many. Both lists of names have no repetitions, and they are the same
set. -/
theorem length_reachable_congr (h : ∀ root, root ∈ others ↔ root ∈ roots) :
    (reachable adjacency others).length = (reachable adjacency roots).length := by
  refine Text.length_eraseDups_congr fun name => ?_
  have hname : name ∈ reachable adjacency others ↔ name ∈ reachable adjacency roots :=
    mem_reachable_congr h name
  rwa [reachable, reachable, List.mem_eraseDups, List.mem_eraseDups] at hname

end ImportGraph

namespace Analysis

/-- Two analyses find the same graph, the same reachable names and the same unused files, or they
stop for the same exposed names without a source file, or for the same failure. -/
inductive SameAnalysis : Except Failure Analysis → Except Failure Analysis → Prop where
  | found {first second : Analysis} (graph : second.graph = first.graph)
    (reachable : ∀ name, name ∈ second.reachable ↔ name ∈ first.reachable)
    (unused : second.unused = first.unused) : SameAnalysis (.ok first) (.ok second)
  | missing {names others : List String} (same : ∀ name, name ∈ others ↔ name ∈ names) :
    SameAnalysis (.error (.error (.exposedWithoutSource names)))
      (.error (.error (.exposedWithoutSource others)))
  | failed (failure : Failure) : SameAnalysis (.error failure) (.error failure)

variable {project : Project} {exposed others : List String}

/-- In a package, all modules that are loaded go into the graph; there is no entry module beside
them. -/
theorem graphModules_of_package (hshape : project.shape = .package exposed)
    (loaded : List SourceModule) : graphModules project loaded = pure loaded := by
  rw [graphModules, hshape]

/-- The roots that are missing from a package's graph are the exposed names that no file
declares. -/
theorem missing_of_package (hshape : project.shape = .package exposed) (graph : ImportGraph) :
    missing project graph = exposed.filter (· ∉ graph.names) := by
  rw [missing, hshape]

/-- The roots of a package are the names that it exposes. -/
theorem roots_of_package (hshape : project.shape = .package exposed) : project.roots = exposed := by
  rw [Project.roots, hshape]

/-- Only the set of the exposed names counts when a package is analysed: for what is missing, and as
the roots of the search. -/
theorem mirrors_run (hshape : project.shape = .package exposed)
    (hsame : ∀ name, name ∈ others ↔ name ∈ exposed) (load : Loader) :
    Traced.Mirrors SameAnalysis (run project load) (run (project.exposing others) load) := by
  have hshape' : (project.exposing others).shape = .package others := rfl
  refine Traced.mirrors_after _ .failed fun loaded => ?_
  rw [graphModules_of_package hshape, graphModules_of_package hshape']
  refine Traced.mirrors_after _ .failed fun modules => ?_
  refine Traced.mirrors_after _ .failed fun graph => ?_
  have hmissing (name : String) :
      name ∈ missing (project.exposing others) graph ↔ name ∈ missing project graph := by
    rw [missing_of_package hshape, missing_of_package hshape', List.mem_filter, List.mem_filter,
      hsame]
  by_cases hnone : missing project graph = []
  · have hnone' : missing (project.exposing others) graph = [] := by
      rw [List.eq_nil_iff_forall_not_mem] at hnone ⊢
      exact fun name hname => hnone name ((hmissing name).mp hname)
    rw [hnone, hnone', roots_of_package hshape, roots_of_package hshape']
    have hreachable (name : String) :
        name ∈ ImportGraph.reachable graph.adjacency others ↔
          name ∈ ImportGraph.reachable graph.adjacency exposed :=
      ImportGraph.mem_reachable_congr hsame name
    have hunused : (loaded.filter (·.name ∉ ImportGraph.reachable graph.adjacency others)) =
        loaded.filter (·.name ∉ ImportGraph.reachable graph.adjacency exposed) := by
      simp only [hreachable]
    simp only [hunused, ImportGraph.length_reachable_congr hsame]
    refine Traced.mirrors_after _ .failed fun _ => fun past => ⟨rfl, ?_⟩
    exact .found rfl hreachable rfl
  · have hsome' : missing (project.exposing others) graph ≠ [] := by
      obtain ⟨name, hname⟩ := List.exists_mem_of_ne_nil _ hnone
      exact List.ne_nil_of_mem ((hmissing name).mpr hname)
    simp only [List.isEmpty_eq_false_iff.mpr hnone, List.isEmpty_eq_false_iff.mpr hsome',
      Bool.not_false, if_true]
    exact fun past => ⟨rfl, .missing hmissing⟩

end Analysis

namespace Project

variable {host : Host} {settings : Settings} {config : ProjectConfig}
  {exposed other : ExposedModules} {project twin : Project}

/-- Two packages that differ only in the way in which the names that they expose are written: both
start from these names, in the order in which they are written first, their files are loaded in the
same way, and whatever is loaded, their analyses find the same. -/
structure IsTwin (host : Host) (exposed other : ExposedModules) (project twin : Project) :
    Prop where
  eq_exposing : twin = project.exposing other.names
  files : twin.files = project.files
  roots : ListsOnce exposed.given project.roots
  twinRoots : ListsOnce other.given twin.roots
  loader : ∀ settings, Loader.ofHost host settings twin = Loader.ofHost host settings project
  analysis : ∀ load past,
    Analysis.SameAnalysis (Analysis.run project load past).outcome
      (Analysis.run twin load past).outcome

/-- Two packages that differ only in how their exposed modules are given are twins. -/
theorem isTwin_exposing (hsame : exposed.SameNames other)
    (hshape : project.shape = .package exposed.names) :
    IsTwin host exposed other project (project.exposing other.names) where
  eq_exposing := rfl
  files := rfl
  roots := Analysis.roots_of_package hshape ▸ exposed.listsOnce_names
  twinRoots := other.listsOnce_names
  loader _ := rfl
  analysis load past := (Analysis.mirrors_run hshape hsame.mem_names load past).2

/-- A package that exposes no names is not built, whatever else its configuration says. -/
theorem build_eq_error_of_given (config : ProjectConfig) (hkind : config.kind = some "package")
    (hnone : config.exposed.given = []) (past : List LogRecord) :
    ∃ failure, (build host settings config past).outcome = .error failure := by
  have hnames := ExposedModules.names_eq_nil_iff.mpr hnone
  simp only [build, hkind, package, hnames, List.isEmpty_nil, if_true]
  exact ⟨_, rfl⟩

/-- How the exposed modules of a package are written does not matter. If the names are the same, as
a set, both builds fail or both give the same package up to the order of the names, with the same
log records; without names both fail. -/
theorem build_exposed_congr (hkind : config.kind = some "package")
    (hsame : config.exposed.SameNames other) (past : List LogRecord) :
    (config.exposed.given = [] →
      (∃ failure, (build host settings config past).outcome = .error failure) ∧
        ∃ failure,
          (build host settings { config with exposed := other } past).outcome = .error failure) ∧
    ((∃ failure, (build host settings config past).outcome = .error failure) ∧
        (∃ failure,
          (build host settings { config with exposed := other } past).outcome = .error failure) ∨
      (build host settings { config with exposed := other } past).records =
          (build host settings config past).records ∧
        ∃ project twin, (build host settings config past).outcome = .ok project ∧
          (build host settings { config with exposed := other } past).outcome = .ok twin ∧
            IsTwin host config.exposed other project twin) := by
  have hnone (h : config.exposed.given = []) :
      (∃ failure, (build host settings config past).outcome = .error failure) ∧
        ∃ failure,
          (build host settings { config with exposed := other } past).outcome = .error failure := by
    have hother : other.given = [] := by
      rw [List.eq_nil_iff_forall_not_mem] at h ⊢
      exact fun name hname => h name ((hsame name).mp hname)
    exact ⟨build_eq_error_of_given config hkind h past,
      build_eq_error_of_given { config with exposed := other } hkind hother past⟩
  refine ⟨hnone, ?_⟩
  by_cases hempty : config.exposed.given = []
  · exact .inl (hnone hempty)
  · have hbuild : build host settings config = package host settings config ∧
        build host settings { config with exposed := other } =
          package host settings { config with exposed := other } := by
      simp only [build, hkind, and_self]
    rw [hbuild.1, hbuild.2]
    obtain ⟨hrecords, houtcome⟩ : _ ∧ SameBuild config.exposed.names other.names
        (package host settings config past).outcome
        (package host settings { config with exposed := other } past).outcome :=
      mirrors_package hsame (mt ExposedModules.names_eq_nil_iff.mp hempty) past
    rcases Traced.exists_of_sameOutcome houtcome with
      ⟨failure, hfirst, hsecond⟩ | ⟨project, twin, hfirst, hsecond, hshape, rfl⟩
    · exact .inl ⟨⟨failure, hfirst⟩, failure, hsecond⟩
    · exact .inr ⟨hrecords.symm, project, _, hfirst, hsecond, isTwin_exposing hsame hshape⟩

/-- The name of a module, written twice and in groups. -/
def groupedExposed : ExposedModules :=
  .categories [("Main", .one " A "), ("More", .many ["", "A"])]

/-- A package that exposes one module is the same if the module is written twice and in groups. -/
theorem build_exposed_congr_of_linkedHost :
    (linkedConfig ["src", "lib"]).exposed.SameNames groupedExposed ∧
      ∃ project twin,
        (build linkedHost .default (linkedConfig ["src", "lib"]) []).outcome = .ok project ∧
          (build linkedHost .default
            { linkedConfig ["src", "lib"] with exposed := groupedExposed } []).outcome = .ok twin ∧
            IsTwin linkedHost (.ungrouped (.one "A")) groupedExposed project twin := by
  have hgiven : ExposedModules.given (.ungrouped (.one "A")) = ["A"] ∧
      groupedExposed.given = ["A", "A"] := by
    decide +kernel
  have hsame : (linkedConfig ["src", "lib"]).exposed.SameNames groupedExposed := by
    intro name
    rw [hgiven.2, show (linkedConfig ["src", "lib"]).exposed.given = ["A"] from hgiven.1]
    simp
  have hdeclared : ∀ directory ∈ ["src", "lib"], ∃ place, (directory, place) ∈ linkedDirs := by
    simp [linkedDirs]
  obtain ⟨built, hbuilt, -⟩ := exists_build_linkedHost hdeclared (by decide)
  refine ⟨hsame, ?_⟩
  rcases (build_exposed_congr rfl hsame []).2 with
    ⟨⟨failure, hfailure⟩, -⟩ | ⟨-, project, twin, hproject, htwin, hsameBuild⟩
  · rw [hbuilt []] at hfailure
    cases hfailure
  · exact ⟨project, twin, hproject, htwin, hsameBuild⟩

end Project

end ElmReach
