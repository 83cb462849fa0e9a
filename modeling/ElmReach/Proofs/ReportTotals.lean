import ElmReach.Proofs.DeepestDir
import ElmReach.Proofs.GraphTotals
import ElmReach.Proofs.InsideRoot
import ElmReach.Proofs.TwoRuns
import ElmReach.Report.Unused

/-!
# The report of unused modules adds up

The counts of the report come from the graph, from the search and from the files. They agree if
every root is a node, which a build and an analysis make sure of together: the entry module is
loaded again under the same name.
-/

namespace ElmReach

section Host

variable {host : Host} {settings : Settings} {project : Project}

/-- A source module carries the path that it was read from. -/
theorem SourceModule.path_of_read {encoding : Encoding} {path : String} {sourceRoot : Option String}
    {past : List LogRecord} {source : SourceModule}
    (h : (SourceModule.read host encoding path sourceRoot past).outcome = .ok source) :
    source.path = path := by
  obtain ⟨text, _, -, h⟩ := Traced.outcome_bind_eq_ok h
  obtain ⟨summary, later, -, h⟩ := Traced.outcome_bind_eq_ok h
  unfold SourceModule.ofSummary at h
  cases hdeclared : (summary.moduleStatement.map ModuleStatement.name).filter (· ≠ "") with
  | some name =>
    rw [hdeclared] at h
    obtain rfl := Except.ok.inj h
    rfl
  | none =>
    rw [hdeclared] at h
    cases hname : SourceModule.nameOfPath path sourceRoot with
    | error fault =>
      rw [hname] at h
      cases h
    | ok name =>
      rw [hname] at h
      obtain rfl := Except.ok.inj h
      rfl

/-- A file that the log does not write to is always loaded as the same module. -/
theorem Loader.agree_ofHost {path : String} (h : host.LogLeaves path) (settings : Settings)
    (project : Project) :
    Traced.Agree Eq (Loader.ofHost host settings project path)
      (Loader.ofHost host settings project path) := by
  refine (Traced.agree_ofOutcome _).bind fun sourceRoot _ hroot => ?_
  rw [hroot.2]
  exact SourceModule.agree_read h _ _

/-- The loader of a host gives modules that carry the path they were asked for. -/
theorem Loader.path_of_ofHost {path : String} {past : List LogRecord} {source : SourceModule}
    (h : (Loader.ofHost host settings project path past).outcome = .ok source) :
    source.path = path := by
  obtain ⟨sourceRoot, _, -, h⟩ := Traced.outcome_bind_eq_ok h
  exact SourceModule.path_of_read h

/-- An analysis whose loader has one outcome for each file is the analysis of modules that are at
hand, and that are given for the files only. -/
theorem Analysis.exists_maps {load : Loader} {modules : String → Except Failure SourceModule}
    (hload : ∀ path ∈ project.files, (load path).HasOutcome (modules path))
    (hcarries : ∀ path ∈ project.files, ∀ source, modules path = .ok source → source.path = path) :
    ∃ only, (Loader.ofModules only).Maps only ∧
      (∀ path ∈ project.files, only path = modules path) ∧
        ∀ past, (Analysis.run project load past).outcome =
          (Analysis.run project (Loader.ofModules only) past).outcome := by
  let only (path : String) : Except Failure SourceModule :=
    if path ∈ project.files then modules path else .error (.error (.missingSource path))
  have honly (path : String) (hpath : path ∈ project.files) : only path = modules path :=
    if_pos hpath
  refine ⟨only, ⟨fun path past => rfl, fun path source hsource => ?_⟩, honly, fun past => ?_⟩
  · by_cases hpath : path ∈ project.files
    · exact hcarries path hpath source ((honly path hpath).symm.trans hsource)
    · simp only [only, if_neg hpath] at hsource
      cases hsource
  · refine Traced.sameOutcome_eq_iff.mp
      (Analysis.agree_run (fun path hpath past later => ?_) past past)
    rw [hload path hpath past, ← honly path hpath]
    exact Traced.sameOutcome_eq_iff.mpr rfl

/-- An analysis of files that the log does not write to rests on the modules that they are loaded
as. -/
theorem Analysis.exists_restsOn {analysis : Analysis} {later : List LogRecord}
    (hascending : project.files.Pairwise (· < ·))
    (hlog : ∀ path ∈ project.files, host.LogLeaves path)
    (h : (Analysis.run project (Loader.ofHost host settings project) later).outcome =
      .ok analysis) :
    ∃ value, analysis.RestsOn project value ∧ ∀ path ∈ project.files,
      (Loader.ofHost host settings project path).HasOutcome (.ok (value path)) := by
  have hload (path : String) (hpath : path ∈ project.files) :
      (Loader.ofHost host settings project path).HasOutcome
        (Loader.ofHost host settings project path []).outcome :=
    (Loader.agree_ofHost (hlog path hpath) settings project).hasOutcome []
  obtain ⟨only, hmaps, honly, hrun⟩ := Analysis.exists_maps hload fun path _ source hsource =>
    Loader.path_of_ofHost hsource
  obtain ⟨value, hvalue, hconclude⟩ :=
    Analysis.exists_value_of_run_ok hmaps ((hrun later).symm.trans h)
  refine ⟨value, ⟨hascending, fun path hpath => ?_, hconclude⟩, fun path hpath => ?_⟩
  · exact hmaps.carries path _ (hvalue path hpath)
  · rw [← hvalue path hpath, honly path hpath]
    exact hload path hpath

/-- The entry module of an application carries the path of the entry file. -/
theorem Project.path_of_readEntry {sourceDirs : List String} {path : String}
    {records : List LogRecord} {entry : SourceModule}
    (h : (Project.readEntry host settings sourceDirs path records).outcome = .ok entry) :
    entry.path = path := by
  obtain ⟨sourceRoot, _, -, hread⟩ := Traced.outcome_bind_eq_ok h
  rw [Traced.outcome_mapFailure, Results.mapError_eq_ok] at hread
  exact SourceModule.path_of_read hread

/-- The entry module is loaded again as it was read. -/
theorem Loader.ofHost_of_readEntry {path : String} {records : List LogRecord} {entry : SourceModule}
    (hlog : host.LogLeaves path)
    (h : (Project.readEntry host settings project.sourceDirs path records).outcome = .ok entry) :
    (Loader.ofHost host settings project path).HasOutcome (.ok entry) := by
  obtain ⟨sourceRoot, later, hroot, hread⟩ := Traced.outcome_bind_eq_ok h
  rw [Traced.outcome_mapFailure, Results.mapError_eq_ok] at hread
  have hsource : (Traced.ofOutcome ((project.sourceDirFor path).mapError Failure.fault)).HasOutcome
      (.ok sourceRoot) := fun _ => hroot
  have hsame := (SourceModule.agree_read hlog settings.encoding sourceRoot).hasOutcome later
  rw [hread] at hsame
  exact hsource.after hsame

end Host

namespace Project

/-- Every root of a project that is built and analysed is a node. -/
theorem Built.mem_names_of_root {host : Host} {settings : Settings} {config : ProjectConfig}
    {root : Path} {project : Project} {analysis : Analysis} {value : String → SourceModule}
    (hbuilt : Built host settings config root project)
    (hlog : ∀ path ∈ project.files, host.LogLeaves path)
    (hrests : analysis.RestsOn project value)
    (hvalue : ∀ path ∈ project.files,
      (Loader.ofHost host settings project path).HasOutcome (.ok (value path))) :
    ∀ name ∈ project.roots, name ∈ analysis.graph.names := by
  intro name hname
  obtain ⟨hmissing, -, -⟩ := Analysis.conclude_eq_ok hrests.concluded
  rw [← hrests.graph_eq.1] at hmissing
  cases hshape : project.shape with
  | package exposed =>
    rw [roots, hshape] at hname
    by_contra hno
    have hmem : name ∈ Analysis.missing project analysis.graph := by
      rw [Analysis.missing, hshape]
      exact List.mem_filter.mpr ⟨hname, by simpa using hno⟩
    rw [hmissing] at hmem
    exact absurd hmem List.not_mem_nil
  | application entry =>
    rw [roots, hshape] at hname
    obtain rfl := List.mem_singleton.mp hname
    have hentry : entry ∈ Analysis.RestsOn.sources project value := by
      by_cases hpath : entry.path ∈ project.files
      · obtain ⟨path, records, hread⟩ := hbuilt.entry entry hshape
        obtain rfl := path_of_readEntry hread
        have hentry := Loader.ofHost_of_readEntry (hlog entry.path hpath) hread []
        rw [hvalue entry.path hpath []] at hentry
        refine List.mem_append_left _ (List.mem_map.mpr ⟨entry.path, hpath, ?_⟩)
        exact Except.ok.inj hentry
      · exact List.mem_append_right _ (mem_entryOutside.mpr ⟨hshape, hpath⟩)
    rw [hrests.graph_eq.1, ImportGraph.mem_names_addAll]
    exact .inr ⟨entry, hentry, rfl⟩

end Project

namespace Report

/-- The value of a field of an object. Anything but an object has no fields. -/
def Json.field? : Json → String → Option Json
  | .object fields, name => fields.lookup name
  | _, _ => none

/-- The value at the end of a path of fields, each of which is looked up in the value of the one in
front. -/
def Json.at? (value : Json) (path : List String) : Option Json :=
  path.foldlM Json.field? value

/-- The report of a project that is built and analysed, while the log leaves its files alone, adds
up. All roots are nodes, so only nodes are reachable. The entries are the unused files in ascending
order, each with the name that its file is loaded with. The number of modules is the number of
reachable modules and of the different names among the entries, and the number of unused files is
that of the entries. -/
theorem unusedJson_adds_up {host : Host} {settings : Settings} {config : ProjectConfig}
    {project : Project} {analysis : Analysis} {past later : List LogRecord}
    (hbuild : (Project.build host settings config past).outcome = .ok project)
    (hlog : ∀ path ∈ project.files, host.LogLeaves path)
    (hrun : (Analysis.run project (Loader.ofHost host settings project) later).outcome =
      .ok analysis) :
    (∀ root ∈ analysis.roots, root ∈ analysis.graph.names) ∧
    analysis.reachable ⊆ analysis.graph.adjacency.names ∧
    analysis.unusedModules.names = analysis.unused ∧
    analysis.unused.Pairwise (· < ·) ∧
    (∀ path name, (path, name) ∈ analysis.unusedModules →
      ∃ source, (Loader.ofHost host settings project path).HasOutcome (.ok source) ∧
        source.name = name) ∧
    ∃ total reachable unused,
      (unusedJson project analysis).at? ["summary", "total_modules"] = some (.number total) ∧
      (unusedJson project analysis).at? ["summary", "reachable_modules"] =
        some (.number reachable) ∧
      (unusedJson project analysis).at? ["summary", "unused_files"] = some (.number unused) ∧
      (unusedJson project analysis).at? ["unused"] =
        some (.list (analysis.unusedModules.map fun (file, name) =>
          .object [("file", .text file), ("module", .text name)])) ∧
      total = analysis.graph.adjacency.names.length ∧
      total = reachable + (analysis.unusedModules.map Prod.snd).toFinset.card ∧
      reachable = analysis.reachable.length ∧
      unused = analysis.unusedModules.length := by
  obtain ⟨root, hbuilt⟩ := Project.exists_built hbuild
  have hascending : project.files.Pairwise (· < ·) := hbuilt.files ▸ Text.pairwise_sortedSet _
  obtain ⟨value, hrests, hvalue⟩ := Analysis.exists_restsOn hascending hlog hrun
  have hroots := hbuilt.mem_names_of_root hlog hrests hvalue
  refine ⟨hrests.graph_eq.2 ▸ hroots, hrests.reachable_subset hroots, ?_, hrests.pairwise_unused,
    fun path name hentry => ?_, analysis.graph.nodes.length, analysis.reachable.length,
    analysis.unused.length, rfl, rfl, rfl, rfl, ?_, hrests.length_nodes_eq hroots, rfl, ?_⟩
  · rw [hrests.unusedModules_eq, Assoc.names, List.map_map]
    simp [Function.comp_def]
  · rw [hrests.unusedModules_eq] at hentry
    obtain ⟨path, hpath, heq⟩ := List.mem_map.mp hentry
    obtain ⟨rfl, rfl⟩ := Prod.mk.inj heq
    rw [hrests.unused_eq] at hpath
    exact ⟨value path, hvalue path (List.mem_filter.mp hpath).1, rfl⟩
  · rw [ImportGraph.names_adjacency, ImportGraph.names, List.length_map]
  · rw [hrests.unusedModules_eq, List.length_map]

/-- An empty file is a module without imports that is named by its path. -/
theorem hasOutcome_read_of_empty {host : Host} {path name : String} {sourceRoot : Option String}
    (hlog : host.LogLeaves path)
    (hfile : host.tree.file? host.here (Path.tidy path) = .ok (some []))
    (hname : SourceModule.nameOfPath path sourceRoot = .ok name) :
    (SourceModule.read host .utf8 path sourceRoot).HasOutcome
      (.ok { path, name, imports := [] }) := by
  have hdecode : Encoding.decode .utf8 [] = .ok [] := by decide +kernel
  have hcontent : SourceText.ofFile host.tree host.here .utf8 path =
      .ok { path := Path.tidy path, content := [] } :=
    SourceText.ofFile_eq_ok hfile hdecode
  have hsummary : Summary.ofContent [] = ⟨[], [], [], [], []⟩ := by decide +kernel
  have htext := SourceText.hasOutcome_read hlog .utf8
  rw [hcontent] at htext
  refine htext.after ((SourceText.hasOutcome_summary _).after ?_)
  dsimp only
  rw [hsummary, SourceModule.ofSummary, hname]
  exact (Traced.hasOutcome_say _ _ _).after (Traced.hasOutcome_pure _)

open Project

/-- The files below the two directories of the tree. -/
theorem listed_linkedHost :
    SourceScan.listed ⟨[], [], ".elm", false⟩ linkedHost "/p/src" =
        ["/p/src/A.elm", "/p/src/B.elm"] ∧
      SourceScan.listed ⟨[], [], ".elm", false⟩ linkedHost "/p/lib" = ["/p/lib/B.elm"] := by
  have hsrc : Place.render ["p", "src"] = "/p/src" := by decide +kernel
  have hlib : Place.render ["p", "lib"] = "/p/lib" := by decide +kernel
  have hat : linkedTree.IsAt ["p", "src"] .directory ∧ linkedTree.IsAt ["p", "lib"] .directory := by
    decide +kernel
  have hsrc' := hat.1.locate_eq (by decide) (by decide) []
  have hlib' := hat.2.locate_eq (by decide) (by decide) []
  rw [hsrc] at hsrc'
  rw [hlib] at hlib'
  have hvisits : SourceScan.visits ⟨[], [], ".elm", false⟩ linkedHost "/p/src" =
      .ok [⟨"/p/src", ["A.elm", "B.elm"]⟩] := by
    rw [SourceScan.visits, FileTree.visits, linkedHost, hsrc']
    decide +kernel
  have hvisits' : SourceScan.visits ⟨[], [], ".elm", false⟩ linkedHost "/p/lib" =
      .ok [⟨"/p/lib", ["B.elm"]⟩] := by
    rw [SourceScan.visits, FileTree.visits, linkedHost, hlib']
    decide +kernel
  constructor
  · rw [SourceScan.listed, hvisits]
    decide +kernel
  · rw [SourceScan.listed, hvisits']
    decide +kernel

/-- The source directories and the files of a package that declares both directories. -/
theorem files_of_linkedHost {project : Project}
    (hbuilt : Built linkedHost .default (linkedConfig ["src", "lib"]) linkedRoot project) :
    (∀ text, text ∈ project.sourceDirs ↔ text ∈ ["/p/src", "/p/lib"]) ∧
      project.files = ["/p/lib/B.elm", "/p/src/A.elm", "/p/src/B.elm"] := by
  have hdeclared : ∀ directory ∈ ["src", "lib"], ∃ place, (directory, place) ∈ linkedDirs := by
    simp [linkedDirs]
  have hplaces : ∀ entry ∈ linkedDirs, ["p"] <+: entry.2 →
      entry.2.render ∈ ["/p/src", "/p/lib"] := by decide +kernel
  have hdirs (text : String) : text ∈ project.sourceDirs ↔ text ∈ ["/p/src", "/p/lib"] := by
    rw [hbuilt.mem_sourceDirs]
    refine (acceptsDir_linkedHost_iff hdeclared).trans ⟨?_, fun htext => ?_⟩
    · rintro ⟨directory, -, place, hplace, hbelow, rfl⟩
      exact hplaces _ hplace hbelow
    · rcases List.mem_pair.mp htext with rfl | rfl
      · exact ⟨"src", by decide, ["p", "src"], by decide, by decide, by decide +kernel⟩
      · exact ⟨"lib", by decide, ["p", "lib"], by decide, by decide, by decide +kernel⟩
  have hscan : project.scan .default = ⟨[], [], ".elm", false⟩ := hbuilt.scan_eq rfl rfl
  have hcollapsed : Path.collapsed "/p/src" = "/p/src" ∧ Path.collapsed "/p/lib" = "/p/lib" := by
    decide +kernel
  refine ⟨hdirs, ?_⟩
  rw [hbuilt.files, hscan]
  refine (Text.pairwise_sortedSet _).eq_of_mem_iff (by decide +kernel) fun file => ?_
  rw [Text.mem_sortedSet, List.mem_flatMap]
  simp only [hdirs, List.mem_pair, or_and_right, exists_or, exists_eq_left, hcollapsed.1,
    hcollapsed.2, listed_linkedHost.1, listed_linkedHost.2]
  simp [or_comm]

/-- The modules of these files, as they are read. Two of the files declare the same name. -/
def linkedModule (path : String) : SourceModule :=
  { path, name := if path = "/p/src/A.elm" then "A" else "B", imports := [] }

/-- Loading a file of the project with links gives the module it is listed with. -/
theorem hasOutcome_ofHost_linkedHost {project : Project}
    (hbuilt : Built linkedHost .default (linkedConfig ["src", "lib"]) linkedRoot project) :
    ∀ path ∈ project.files,
      (Loader.ofHost linkedHost .default project path).HasOutcome (.ok (linkedModule path)) := by
  obtain ⟨hdirs, hfiles⟩ := files_of_linkedHost hbuilt
  have hload (place : Place) (path directory name : String) (hpath : place.render = path)
      (hproper : place.IsProper) (hne : place ≠ []) (hat : linkedTree.IsAt place (.file []))
      (hdirectory : containingDir ["/p/src", "/p/lib"] path = .ok (some directory))
      (hname : SourceModule.nameOfPath path (some directory) = .ok name) :
      (Loader.ofHost linkedHost .default project path).HasOutcome
        (.ok { path, name, imports := [] }) := by
    have hroot : (Traced.ofOutcome ((project.sourceDirFor path).mapError Failure.fault)).HasOutcome
        (.ok (some directory)) := by
      rw [sourceDirFor, containingDir_congr hdirs, hdirectory]
      exact fun _ => rfl
    have hfile : linkedHost.tree.file? linkedHost.here (Path.tidy path) = .ok (some []) := by
      rw [← hpath, Place.tidy_render hproper, FileTree.file?, linkedHost,
        hat.locate_eq hproper hne []]
    exact hroot.after (hasOutcome_read_of_empty (Host.logLeaves_of_noFile rfl _) hfile hname)
  rw [hfiles]
  simp only [List.forall_mem_cons]
  refine ⟨?_, ?_, ?_, by simp⟩
  · exact hload ["p", "lib", "B.elm"] _ "/p/lib" "B" (by decide +kernel) (by decide) (by decide)
      (by decide +kernel) (by decide +kernel) (by decide +kernel)
  · exact hload ["p", "src", "A.elm"] _ "/p/src" "A" (by decide +kernel) (by decide) (by decide)
      (by decide +kernel) (by decide +kernel) (by decide +kernel)
  · exact hload ["p", "src", "B.elm"] _ "/p/src" "B" (by decide +kernel) (by decide) (by decide)
      (by decide +kernel) (by decide +kernel) (by decide +kernel)

/-- In a package with three files, two of which share a name, the number of nodes is that of the
reachable names and of the different names of the unused files. -/
theorem unusedJson_adds_up_of_linkedHost :
    ∃ project analysis,
      (build linkedHost .default (linkedConfig ["src", "lib"]) []).outcome = .ok project ∧
      project.files = ["/p/lib/B.elm", "/p/src/A.elm", "/p/src/B.elm"] ∧
      (Analysis.run project (Loader.ofHost linkedHost .default project) []).outcome =
        .ok analysis ∧
      "A" ∈ analysis.graph.names ∧ analysis.unused.Pairwise (· < ·) ∧
      analysis.graph.adjacency.names.length =
        analysis.reachable.length + (analysis.unusedModules.map Prod.snd).toFinset.card := by
  have hdeclared : ∀ directory ∈ ["src", "lib"], ∃ place, (directory, place) ∈ linkedDirs := by
    simp [linkedDirs]
  obtain ⟨project, hproject, hshape⟩ := exists_build_linkedHost hdeclared (by decide)
  obtain ⟨root, hbuilt⟩ := exists_built (hproject [])
  obtain rfl := Except.ok.inj (hbuilt.resolved.symm.trans resolveRoot_linkedHost)
  obtain ⟨-, hfiles⟩ := files_of_linkedHost hbuilt
  obtain ⟨only, hmaps, honly, hrun⟩ := Analysis.exists_maps (hasOutcome_ofHost_linkedHost hbuilt)
    fun path _ source hsource => by rw [← Except.ok.inj hsource, linkedModule]
  have hdeclares : project.Declares only "A" := by
    have hfile : "/p/src/A.elm" ∈ project.files := by simp [hfiles]
    exact ⟨"/p/src/A.elm", hfile, _, honly _ hfile, by decide⟩
  have hmissing := (Analysis.missing_eq_nil_iff honly).mpr fun exposed hexposed name hname => by
    rw [hshape] at hexposed
    obtain rfl := ProjectShape.package.inj hexposed
    rwa [List.mem_singleton.mp hname]
  obtain ⟨analysis, hanalysis⟩ := Analysis.exists_conclude_eq_ok hmissing
  have hok := (hrun []).trans ((Analysis.outcome_run_of_loaded hmaps honly []).trans hanalysis)
  obtain ⟨hroots, -, -, hascending, -, total, reachable, unused, -, -, -, -, htotal, hsum, rfl,
    -⟩ := unusedJson_adds_up (hproject [])
      (fun path _ => Host.logLeaves_of_noFile rfl path) hok
  have hstart : analysis.roots = ["A"] := by
    rw [(Analysis.graph_eq_of_conclude hanalysis).2, Project.roots, hshape]
  refine ⟨project, analysis, hproject [], hfiles, hok, hroots "A" (by simp [hstart]), hascending,
    ?_⟩
  rw [← htotal, hsum]

end Report

end ElmReach
