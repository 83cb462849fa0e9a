import ElmReach.Analysis
import ElmReach.Proofs.ImportChain
import ElmReach.Proofs.TracedOutcome
import Mathlib.Tactic.Common

/-!
# What an analysis reports as unused

The analysis of a project depends on the modules that the loader gives for the paths of its files.
It comes to a result exactly if all files can be loaded and a package declares all modules that it
exposes. The unused files are then those whose modules no chain of imports reaches.
-/

namespace ElmReach

/-- The loader gives for each path the module, or the failure, of a map, and a module carries the
path that it was loaded from. -/
structure Loader.Maps (load : Loader) (modules : String → Except Failure SourceModule) : Prop where
  outcome : ∀ path, (load path).HasOutcome (modules path)
  carries : ∀ path source, modules path = .ok source → source.path = path

/-- A loader for modules that are at hand. It reports nothing. -/
def Loader.ofModules (modules : String → Except Failure SourceModule) : Loader :=
  fun path => .ofOutcome (modules path)

namespace Project

/-- Some file of the project declares the name, that is, it is loaded as a module of this name. -/
def Declares (project : Project) (modules : String → Except Failure SourceModule)
    (name : String) : Prop :=
  ∃ path ∈ project.files, ∃ source, modules path = .ok source ∧ source.name = name

/-- The modules of a project: those of its files, and the entry module of an application if its file
is not among them. -/
def IsModule (project : Project) (modules : String → Except Failure SourceModule)
    (source : SourceModule) : Prop :=
  (∃ path ∈ project.files, modules path = .ok source) ∨
    project.shape = .application source ∧ source.path ∉ project.files

/-- The entry module of an application, if its file is not a file of the project. It goes into the
graph beside the loaded modules. -/
def entryOutside (project : Project) : List SourceModule :=
  match project.shape with
  | .package _ => []
  | .application entry => if entry.path ∈ project.files then [] else [entry]

/-- There is a module outside of the project's files only for an application, and it is that of the
entry file, if this file is not one of the project's. -/
theorem mem_entryOutside {project : Project} {source : SourceModule} :
    source ∈ project.entryOutside ↔
      project.shape = .application source ∧ source.path ∉ project.files := by
  unfold entryOutside
  cases hshape : project.shape with
  | package exposed => simp
  | application entry =>
    by_cases hentry : entry.path ∈ project.files
    · simp only [hentry, if_true, List.not_mem_nil, false_iff, not_and, not_not]
      rintro ⟨rfl⟩
      exact hentry
    · simp only [hentry, if_false, List.mem_singleton, ProjectShape.application.injEq]
      constructor
      · rintro rfl
        exact ⟨rfl, hentry⟩
      · exact fun h => h.1.symm

end Project

namespace Analysis

variable {project : Project} {load : Loader} {modules : String → Except Failure SourceModule}

/-- What an analysis comes to once its files are loaded: an error if exposed modules are missing,
and the reachable names and unused files otherwise. -/
def conclude (project : Project) (loaded : List SourceModule) : Except Failure Analysis :=
  let graph := (ImportGraph.empty.addAll (loaded ++ project.entryOutside)).2
  let reachable := ImportGraph.reachable graph.adjacency project.roots
  if missing project graph = [] then
    .ok { graph, roots := project.roots, reachable
          unused := (loaded.filter (·.name ∉ reachable)).map SourceModule.path }
  else .error (.error (.exposedWithoutSource (missing project graph)))

/-- The result of an analysis: no root is missing in the graph, the reachable names are those of the
graph from the roots, and the unused files are those of the loaded modules with other names. -/
theorem conclude_eq_ok {loaded : List SourceModule} {analysis : Analysis}
    (h : conclude project loaded = .ok analysis) :
    missing project (ImportGraph.empty.addAll (loaded ++ project.entryOutside)).2 = [] ∧
      analysis.reachable = ImportGraph.reachable
        (ImportGraph.empty.addAll (loaded ++ project.entryOutside)).2.adjacency project.roots ∧
      analysis.unused = (loaded.filter (·.name ∉ analysis.reachable)).map SourceModule.path := by
  unfold conclude at h
  dsimp only at h
  split at h
  · next hmissing =>
    obtain rfl := Except.ok.inj h
    exact ⟨hmissing, rfl, rfl⟩
  · cases h

/-- If no root is missing in the graph, the analysis has a result. -/
theorem exists_conclude_eq_ok {loaded : List SourceModule}
    (h : missing project (ImportGraph.empty.addAll (loaded ++ project.entryOutside)).2 = []) :
    ∃ analysis, conclude project loaded = .ok analysis := by
  rw [conclude]
  simp only [h, if_true]
  exact ⟨_, rfl⟩

/-- The modules of the graph are those loaded and the entry module, if it is outside. Reading it may
be reported, but it does not fail. -/
theorem hasOutcome_graphModules (project : Project) (loaded : List SourceModule) :
    (graphModules project loaded).HasOutcome (.ok (loaded ++ project.entryOutside)) := by
  unfold graphModules Project.entryOutside
  cases project.shape with
  | package exposed => simpa using Traced.hasOutcome_pure loaded
  | application entry =>
    by_cases hentry : entry.path ∈ project.files
    · simpa [hentry] using Traced.hasOutcome_pure loaded
    · simp only [hentry, if_false]
      exact (Traced.hasOutcome_say _ _ _).after (Traced.hasOutcome_pure _)

/-- Building a graph does not fail. What it reports are warnings. -/
theorem hasOutcome_build (sources : List SourceModule) :
    (ImportGraph.build sources).HasOutcome (.ok (ImportGraph.empty.addAll sources).2) :=
  (Traced.hasOutcome_sayAll _).after
    ((Traced.hasOutcome_say _ _ _).after (Traced.hasOutcome_pure _))

/-- The outcome of an analysis is that of loading all files and of what follows from them. -/
theorem hasOutcome_run (hload : load.Maps modules) (project : Project) :
    (run project load).HasOutcome (project.files.mapM modules >>= conclude project) := by
  refine (Traced.hasOutcome_forEach hload.outcome project.files).bind fun loaded => ?_
  refine (hasOutcome_graphModules project loaded).after ((hasOutcome_build _).after ?_)
  unfold conclude
  dsimp only
  generalize (ImportGraph.empty.addAll (loaded ++ project.entryOutside)).2 = graph
  by_cases hmissing : missing project graph = []
  · simp only [hmissing, List.isEmpty_nil, Bool.not_true, Bool.false_eq_true, if_false, if_true]
    exact (Traced.hasOutcome_say _ _ _).after (Traced.hasOutcome_pure _)
  · simp only [List.isEmpty_eq_false_iff.mpr hmissing, Bool.not_false, if_true, if_neg hmissing]
    exact Traced.hasOutcome_fail _

/-- If all files can be loaded, the outcome follows from their modules. -/
theorem outcome_run_of_loaded (hload : load.Maps modules) {value : String → SourceModule}
    (hvalue : ∀ path ∈ project.files, modules path = .ok (value path)) (past : List LogRecord) :
    (run project load past).outcome = conclude project (project.files.map value) := by
  rw [hasOutcome_run hload project past, Results.mapM_eq_ok hvalue]
  rfl

/-- The first file that cannot be loaded decides the outcome. -/
theorem outcome_run_of_first_error (hload : load.Maps modules) {before after : List String}
    {path : String} {failure : Failure} (hfiles : project.files = before ++ path :: after)
    (hbefore : ∀ earlier ∈ before, ∃ source, modules earlier = .ok source)
    (hpath : modules path = .error failure) (past : List LogRecord) :
    (run project load past).outcome = .error failure := by
  rw [hasOutcome_run hload project past, hfiles, Results.mapM_eq_error hbefore hpath]
  rfl

/-- If each file has a module, there is a value of a module for each of them. -/
theorem exists_value (h : ∀ path ∈ project.files, ∃ source, modules path = .ok source) :
    ∃ value : String → SourceModule, ∀ path ∈ project.files, modules path = .ok (value path) := by
  let value (path : String) : SourceModule :=
    match modules path with
    | .ok source => source
    | .error _ => { path, name := "", imports := [] }
  refine ⟨value, fun path hpath => ?_⟩
  obtain ⟨source, hsource⟩ := h path hpath
  simp [value, hsource]

/-- A result rests on a module for each file: if an analysis comes to one, all files were loaded. -/
theorem exists_value_of_run_ok (hload : load.Maps modules) {analysis : Analysis}
    {past : List LogRecord} (h : (run project load past).outcome = .ok analysis) :
    ∃ value : String → SourceModule, (∀ path ∈ project.files, modules path = .ok (value path)) ∧
      conclude project (project.files.map value) = .ok analysis := by
  rcases Results.all_ok_or_first_error modules project.files with
    hall | ⟨before, path, after, failure, hfiles, hbefore, hpath⟩
  · obtain ⟨value, hvalue⟩ := exists_value hall
    refine ⟨value, hvalue, ?_⟩
    rw [← outcome_run_of_loaded hload hvalue past, h]
  · rw [outcome_run_of_first_error hload hfiles hbefore hpath past] at h
    cases h

section Loaded

variable {value : String → SourceModule}
  (hvalue : ∀ path ∈ project.files, modules path = .ok (value path))

include hvalue

/-- The modules of the graph are those of the project: of its files, and of the entry file. -/
theorem mem_graph_iff {source : SourceModule} :
    source ∈ project.files.map value ++ project.entryOutside ↔ project.IsModule modules source := by
  rw [List.mem_append, Project.mem_entryOutside, List.mem_map, Project.IsModule]
  refine or_congr_left ⟨?_, ?_⟩
  · rintro ⟨path, hpath, rfl⟩
    exact ⟨path, hpath, hvalue path hpath⟩
  · rintro ⟨path, hpath, hsource⟩
    rw [hvalue path hpath] at hsource
    exact ⟨path, hpath, Except.ok.inj hsource⟩

/-- The names that the search finds are those at the end of a chain of imports. This takes the
search on the graph back to the modules that the graph was made of. -/
theorem mem_reachable_iff_importChain {name : String} :
    name ∈ ImportGraph.reachable
        (ImportGraph.empty.addAll (project.files.map value ++ project.entryOutside)).2.adjacency
        project.roots ↔
      ImportChain (project.IsModule modules) project.roots name := by
  have hmodules : (· ∈ project.files.map value ++ project.entryOutside) =
      project.IsModule modules := funext fun source => propext (mem_graph_iff hvalue)
  rw [ImportGraph.mem_reachable_iff, ImportGraph.reach_iff_importChain, hmodules]

/-- The reachable names of a result are those at the end of a chain of imports. -/
theorem mem_reachable_iff_of_conclude {analysis : Analysis}
    (hconclude : conclude project (project.files.map value) = .ok analysis) {name : String} :
    name ∈ analysis.reachable ↔ ImportChain (project.IsModule modules) project.roots name := by
  obtain ⟨-, hreachable, -⟩ := conclude_eq_ok hconclude
  rw [hreachable]
  exact mem_reachable_iff_importChain hvalue

/-- The names of the graph are those of the project's modules. -/
theorem mem_names_iff {name : String} :
    name ∈ (ImportGraph.empty.addAll (project.files.map value ++ project.entryOutside)).2.names ↔
      ∃ source, project.IsModule modules source ∧ source.name = name := by
  have hempty : name ∉ ImportGraph.empty.names := by simp [ImportGraph.empty, ImportGraph.names]
  rw [ImportGraph.mem_names_addAll, or_iff_right hempty]
  exact exists_congr fun source => and_congr_left' (mem_graph_iff hvalue)

open scoped Classical in
/-- The exposed modules that are missing are those that no file declares. -/
theorem missing_eq {exposed : List String} (hshape : project.shape = .package exposed) :
    missing project
        (ImportGraph.empty.addAll (project.files.map value ++ project.entryOutside)).2 =
      exposed.filter fun name => ¬ project.Declares modules name := by
  have hnames (name : String) : (∃ source, project.IsModule modules source ∧ source.name = name) ↔
      project.Declares modules name := by
    simp only [Project.IsModule, hshape, reduceCtorEq, false_and, or_false]
    constructor
    · rintro ⟨source, ⟨path, hpath, hsource⟩, hname⟩
      exact ⟨path, hpath, source, hsource, hname⟩
    · rintro ⟨path, hpath, source, hsource, hname⟩
      exact ⟨source, ⟨path, hpath, hsource⟩, hname⟩
  simp only [missing, hshape]
  refine List.filter_congr fun name _ => ?_
  rw [decide_eq_decide, mem_names_iff hvalue, hnames]

/-- No root is missing in the graph exactly if each exposed name is declared by one of the project's
files. An application has no root that could be missing. -/
theorem missing_eq_nil_iff :
    missing project
        (ImportGraph.empty.addAll (project.files.map value ++ project.entryOutside)).2 = [] ↔
      ∀ exposed, project.shape = .package exposed →
        ∀ name ∈ exposed, project.Declares modules name := by
  cases hshape : project.shape with
  | application entry => simp [missing, hshape]
  | package exposed => simp [missing_eq hvalue hshape]

open scoped Classical in
/-- The files whose modules the search does not find are those that no chain of imports reaches. -/
theorem unused_eq (hcarries : ∀ path ∈ project.files, (value path).path = path)
    {reachable : List String}
    (hreachable : ∀ name, name ∈ reachable ↔
      ImportChain (project.IsModule modules) project.roots name) :
    ((project.files.map value).filter (·.name ∉ reachable)).map SourceModule.path =
      project.files.filter fun path => ∃ source, modules path = .ok source ∧
        ¬ ImportChain (project.IsModule modules) project.roots source.name := by
  rw [List.filter_map, List.map_map]
  calc
    (project.files.filter _).map (SourceModule.path ∘ value) = project.files.filter _ := by
      rw [List.map_congr_left (g := id), List.map_id]
      intro path hpath
      exact hcarries path (List.mem_filter.mp hpath).1
    _ = _ := by
      refine List.filter_congr fun path hpath => ?_
      rw [Function.comp_apply, decide_eq_decide, hreachable]
      constructor
      · exact fun h => ⟨value path, hvalue path hpath, h⟩
      · rintro ⟨source, hsource, h⟩
        rw [hvalue path hpath] at hsource
        rwa [Except.ok.inj hsource]

end Loaded

open scoped Classical in
/-- An analysis comes to a result iff every file can be loaded and every exposed module of a package
is declared by one of them. The first file that cannot be loaded decides the failure; otherwise it
lists the exposed modules without a file, in order. The unused files are those, in order, whose
modules no chain of imports reaches. -/
theorem run_ok_iff_and_unused_eq (hload : load.Maps modules) (project : Project)
    (past : List LogRecord) :
    ((∃ analysis, (run project load past).outcome = .ok analysis) ↔
      (∀ path ∈ project.files, ∃ source, modules path = .ok source) ∧
        ∀ exposed, project.shape = .package exposed →
          ∀ name ∈ exposed, project.Declares modules name) ∧
    (∀ before path after failure, project.files = before ++ path :: after →
      (∀ earlier ∈ before, ∃ source, modules earlier = .ok source) →
      modules path = .error failure → (run project load past).outcome = .error failure) ∧
    (∀ exposed, project.shape = .package exposed →
      (∀ path ∈ project.files, ∃ source, modules path = .ok source) →
      (∃ name ∈ exposed, ¬ project.Declares modules name) →
      ∃ error, (run project load past).outcome = .error (.error error) ∧
        error.label = "ConfigurationError" ∧
        error = .exposedWithoutSource
          (exposed.filter fun name => ¬ project.Declares modules name) ∧
        error.details = [("modules", ", ".intercalate
          (exposed.filter fun name => ¬ project.Declares modules name))]) ∧
    ∀ analysis, (run project load past).outcome = .ok analysis →
      analysis.unused = project.files.filter fun path =>
        ∃ source, modules path = .ok source ∧
          ¬ ImportChain (project.IsModule modules) project.roots source.name := by
  refine ⟨⟨?_, ?_⟩, ?_, ?_, ?_⟩
  · rintro ⟨analysis, hok⟩
    obtain ⟨value, hvalue, hconclude⟩ := exists_value_of_run_ok hload hok
    exact ⟨fun path hpath => ⟨value path, hvalue path hpath⟩,
      (missing_eq_nil_iff hvalue).mp (conclude_eq_ok hconclude).1⟩
  · rintro ⟨hall, hexposed⟩
    obtain ⟨value, hvalue⟩ := exists_value hall
    rw [outcome_run_of_loaded hload hvalue]
    exact exists_conclude_eq_ok ((missing_eq_nil_iff hvalue).mpr hexposed)
  · intro before path after failure hfiles hbefore hpath
    exact outcome_run_of_first_error hload hfiles hbefore hpath past
  · rintro exposed hshape hall ⟨name, hname, habsent⟩
    obtain ⟨value, hvalue⟩ := exists_value hall
    have hmissing : exposed.filter (fun name => ¬ project.Declares modules name) ≠ [] :=
      List.ne_nil_of_mem (List.mem_filter.mpr ⟨hname, decide_eq_true habsent⟩)
    refine ⟨_, ?_, rfl, rfl, rfl⟩
    rw [outcome_run_of_loaded hload hvalue, conclude]
    simp only [missing_eq hvalue hshape, if_neg hmissing]
  · intro analysis hok
    obtain ⟨value, hvalue, hconclude⟩ := exists_value_of_run_ok hload hok
    obtain ⟨-, -, hunused⟩ := conclude_eq_ok hconclude
    have hcarries (path : String) (hpath : path ∈ project.files) : (value path).path = path :=
      hload.carries path _ (hvalue path hpath)
    rw [hunused]
    exact unused_eq hvalue hcarries fun _ => mem_reachable_iff_of_conclude hvalue hconclude

/-- Three modules named by their paths: the first two import each other, and nothing imports the
third one. -/
def threeModules (path : String) : Except Failure SourceModule :=
  match path with
  | "A" => .ok ⟨"A", "A", [⟨"B", none, []⟩]⟩
  | "B" => .ok ⟨"B", "B", [⟨"A", none, []⟩]⟩
  | "C" => .ok ⟨"C", "C", [⟨"A", none, []⟩]⟩
  | _ => .error (.error (.missingSource path))

/-- The three modules carry their paths, and none of them imports the third one. -/
theorem path_and_imports_of_threeModules {path : String} {source : SourceModule}
    (h : threeModules path = .ok source) : source.path = path ∧ "C" ∉ source.importNames := by
  unfold threeModules at h
  split at h
  case h_4 => cases h
  all_goals
    obtain rfl := Except.ok.inj h
    simp [SourceModule.importNames]

/-- A loader of the three modules gives each of them for its path. -/
theorem maps_threeModules : (Loader.ofModules threeModules).Maps threeModules where
  outcome _ _ := rfl
  carries _ _ hsource := (path_and_imports_of_threeModules hsource).1

/-- A project with the files of these modules, as a package or as an application. -/
def threeFiles (shape : ProjectShape) : Project :=
  { root := "/", sourceDirs := ["/"], excludeDirs := [], excludeFiles := []
    files := ["A", "B", "C"], shape }

/-- A package with these three files has one unused file, and a file without a module makes the
analysis fail. -/
theorem run_ok_and_unused_eq_singleton :
    (∃ analysis,
      (run (threeFiles (.package ["A"])) (.ofModules threeModules) []).outcome = .ok analysis ∧
        analysis.unused = ["C"]) ∧
      (run { threeFiles (.package ["A"]) with files := ["A", "D", "B"] }
        (.ofModules threeModules) []).outcome = .error (.error (.missingSource "D")) := by
  constructor
  · obtain ⟨hiff, -, -, hunused⟩ := run_ok_iff_and_unused_eq maps_threeModules
      (threeFiles (.package ["A"])) []
    obtain ⟨analysis, hok⟩ := hiff.mpr ⟨by simp [threeFiles, threeModules], by
      rintro exposed ⟨rfl⟩
      simp [Project.Declares, threeFiles, threeModules]⟩
    refine ⟨analysis, hok, ?_⟩
    rw [hunused analysis hok]
    generalize hproject : threeFiles (.package ["A"]) = project
    have hfiles : project.files = ["A", "B", "C"] := by rw [← hproject, threeFiles]
    have hroots : project.roots = ["A"] := by rw [← hproject, threeFiles, Project.roots]
    have hfirst : ImportChain (project.IsModule threeModules) project.roots "A" :=
      .root (by simp [hroots])
    have hsecond : ImportChain (project.IsModule threeModules) project.roots "B" := by
      have himporter : "A" ∈ project.files := by simp [hfiles]
      have hdeclared : "B" ∈ project.files := by simp [hfiles]
      refine hfirst.step (.inl ⟨"A", himporter, rfl⟩) rfl ?_ (.inl ⟨"B", hdeclared, rfl⟩) rfl
      exact List.mem_singleton_self "B"
    have hthird : ¬ ImportChain (project.IsModule threeModules) project.roots "C" := by
      rintro (hroot | ⟨-, ⟨path, -, hsource⟩ | ⟨hshape, -⟩, -, himport, -, -⟩)
      · simp [hroots] at hroot
      · exact (path_and_imports_of_threeModules hsource).2 himport
      · simp [← hproject, threeFiles] at hshape
    simp [hfiles, threeModules, hfirst, hsecond, hthird]
  · exact (run_ok_iff_and_unused_eq maps_threeModules
      { threeFiles (.package ["A"]) with files := ["A", "D", "B"] } []).2.1 ["A"] "D" ["B"] _ rfl
        (by simp [threeModules]) rfl

end Analysis

end ElmReach
