import ElmReach.Proofs.MergedTables
import ElmReach.Proofs.ScannedFiles
import ElmReach.Proofs.UnusedFiles
import Mathlib.Data.Finset.Card

/-!
# The nodes of a graph and the unused files

Each module of a graph is one entry of one node, and a node that no root reaches holds unused files
only. So the names of the nodes are the names that can be reached and those of the unused files, and
they can be counted from either side.
-/

namespace ElmReach

namespace ImportGraph

variable {graph : ImportGraph} {source : SourceModule}

/-- Adding a module keeps the names of the graph different. -/
theorem nodup_names_add (hgraph : graph.names.Nodup) (source : SourceModule) :
    (graph.add source).names.Nodup := by
  obtain ⟨nodes⟩ := graph
  induction nodes with
  | nil => exact List.nodup_singleton source.name
  | cons node rest ih =>
    obtain ⟨hnode, hrest⟩ := List.nodup_cons.mp hgraph
    by_cases hname : node.name = source.name
    · have hsame : (add ⟨node :: rest⟩ source).names = names ⟨node :: rest⟩ := by
        simp [add, addToNodes, names, hname]
      rwa [hsame]
    · have hsplit : (add ⟨node :: rest⟩ source).names = node.name :: (add ⟨rest⟩ source).names := by
        simp [add, addToNodes, names, hname]
      rw [hsplit, List.nodup_cons, mem_names_add]
      exact ⟨not_or.mpr ⟨hnode, Ne.symm hname⟩, ih hrest⟩

/-- Each node of a graph of modules has a name of its own. -/
theorem nodup_names_addAll (hgraph : graph.names.Nodup) (sources : List SourceModule) :
    (graph.addAll sources).2.names.Nodup := by
  induction sources generalizing graph with
  | nil => exact hgraph
  | cons source rest ih => exact ih (nodup_names_add hgraph source)

/-- The files of the nodes, each with the name of its node. The report looks up the name of a file
among them. -/
def fileEntries (graph : ImportGraph) : List (String × String) :=
  graph.files.flatMap fun (name, paths) => paths.map fun path => (path, name)

/-- A module adds one entry to the files of the graph: its path with its name. Where it is put among
them depends on the name. -/
theorem perm_fileEntries_add (graph : ImportGraph) (source : SourceModule) :
    (graph.add source).fileEntries.Perm (graph.fileEntries ++ [(source.path, source.name)]) := by
  obtain ⟨nodes⟩ := graph
  simp only [add, fileEntries, files]
  induction nodes with
  | nil => simp [addToNodes]
  | cons node rest ih =>
    by_cases hname : node.name = source.name
    · rw [addToNodes, if_pos hname]
      simp only [List.map_cons, List.flatMap_cons, List.map_append, List.map_nil, List.append_assoc,
        ← hname]
      exact List.perm_append_comm.append_left _
    · rw [addToNodes, if_neg hname]
      simp only [List.map_cons, List.flatMap_cons, List.append_assoc]
      exact ih.append_left _

/-- The entries of a graph are its modules: the path of each of them with its name, in some
order. -/
theorem perm_fileEntries_addAll (graph : ImportGraph) (sources : List SourceModule) :
    (graph.addAll sources).2.fileEntries.Perm
      (graph.fileEntries ++ sources.map fun source => (source.path, source.name)) := by
  induction sources generalizing graph with
  | nil => simp [addAll]
  | cons source rest ih =>
    have hadd : (graph.addAll (source :: rest)).2 = ((graph.add source).addAll rest).2 := rfl
    rw [hadd]
    refine (ih (graph.add source)).trans ?_
    rw [List.map_cons, ← List.singleton_append, ← List.append_assoc]
    exact (perm_fileEntries_add graph source).append_right _

/-- If all roots are nodes, only nodes are reachable. -/
theorem mem_names_of_mem_reachable {roots : List String} {name : String}
    (hroots : ∀ root ∈ roots, root ∈ graph.names)
    (h : name ∈ reachable graph.adjacency roots) : name ∈ graph.adjacency.names := by
  cases mem_reachable_iff.mp h with
  | root hroot =>
    rw [names_adjacency]
    exact hroots name hroot
  | step _ _ hnode => exact hnode

end ImportGraph

namespace Analysis

variable {project : Project} {analysis : Analysis} {value : String → SourceModule}

/-- The graph of an analysis is that of the modules loaded and of the entry module, if it stands
outside, and its roots are those of the project. -/
theorem graph_eq_of_conclude {loaded : List SourceModule}
    (h : conclude project loaded = .ok analysis) :
    analysis.graph = (ImportGraph.empty.addAll (loaded ++ project.entryOutside)).2 ∧
      analysis.roots = project.roots := by
  unfold conclude at h
  dsimp only at h
  split at h
  · obtain rfl := Except.ok.inj h
    exact ⟨rfl, rfl⟩
  · cases h

/-- An analysis rests on a module for each file of the project, each with the path of its file, and
follows from these modules. The totals of a report are counted from this. -/
structure RestsOn (analysis : Analysis) (project : Project) (value : String → SourceModule) :
    Prop where
  ascending : project.files.Pairwise (· < ·)
  carries : ∀ path ∈ project.files, (value path).path = path
  concluded : conclude project (project.files.map value) = .ok analysis

namespace RestsOn

/-- The modules of the graph: those of the project's files, and the entry module if it stands
outside of them. -/
abbrev sources (project : Project) (value : String → SourceModule) : List SourceModule :=
  project.files.map value ++ project.entryOutside

/-- What an analysis rests on is the graph of its sources. -/
theorem graph_eq (h : analysis.RestsOn project value) :
    analysis.graph = (ImportGraph.empty.addAll (sources project value)).2 ∧
      analysis.roots = project.roots :=
  graph_eq_of_conclude h.concluded

/-- The unused files are those whose modules are not reached, in the order of the files. -/
theorem unused_eq (h : analysis.RestsOn project value) :
    analysis.unused = project.files.filter fun path => (value path).name ∉ analysis.reachable := by
  obtain ⟨-, -, hunused⟩ := conclude_eq_ok h.concluded
  rw [hunused, List.filter_map, List.map_map]
  calc
    (project.files.filter _).map (SourceModule.path ∘ value) = (project.files.filter _).map id :=
      List.map_congr_left fun path hpath => h.carries path (List.mem_filter.mp hpath).1
    _ = _ := List.map_id _

/-- The unused files are listed in ascending order, as the files of the project are. -/
theorem pairwise_unused (h : analysis.RestsOn project value) :
    analysis.unused.Pairwise (· < ·) := by
  rw [h.unused_eq]
  exact h.ascending.filter _

/-- No unused file is listed twice. -/
theorem nodup_unused (h : analysis.RestsOn project value) : analysis.unused.Nodup :=
  h.pairwise_unused.imp fun hlt => ne_of_lt hlt

/-- No two modules of the graph have the same path. The files of a project are different, and the
entry module is added only if it is none of them. -/
theorem nodup_paths (h : analysis.RestsOn project value) :
    ((sources project value).map SourceModule.path).Nodup := by
  have hpaths : (project.files.map value).map SourceModule.path = project.files := by
    rw [List.map_map]
    exact (List.map_congr_left fun path hpath => h.carries path hpath).trans (List.map_id _)
  rw [List.map_append, hpaths, List.nodup_append]
  refine ⟨h.ascending.imp fun hlt => ne_of_lt hlt, ?_, ?_⟩
  · unfold Project.entryOutside
    split
    · exact List.nodup_nil
    · split <;> simp
  · rintro path hpath other hother rfl
    obtain ⟨entry, hentry, rfl⟩ := List.mem_map.mp hother
    exact (Project.mem_entryOutside.mp hentry).2 hpath

/-- A file has the name of its module in the graph. The report looks it up there. -/
theorem get?_fileEntries (h : analysis.RestsOn project value) {path : String}
    (hpath : path ∈ project.files) :
    (Assoc.ofEntries analysis.graph.fileEntries).get? path = some (value path).name := by
  have hperm := ImportGraph.perm_fileEntries_addAll ImportGraph.empty (sources project value)
  rw [← h.graph_eq.1] at hperm
  have hentries : analysis.graph.fileEntries.Perm
      ((sources project value).map fun source => (source.path, source.name)) := hperm
  have hnames : (Assoc.names analysis.graph.fileEntries).Nodup := by
    refine ((hentries.map Prod.fst).nodup_iff).mpr ?_
    rw [List.map_map]
    exact h.nodup_paths
  rw [Assoc.ofEntries_eq_self hnames]
  refine Assoc.get?_eq_some_of_mem hnames (hentries.mem_iff.mpr (List.mem_map.mpr ?_))
  refine ⟨value path, List.mem_append_left _ (List.mem_map_of_mem hpath), ?_⟩
  rw [h.carries path hpath]

/-- The report lists the unused files in order, each with the name of its module. -/
theorem unusedModules_eq (h : analysis.RestsOn project value) :
    analysis.unusedModules = analysis.unused.map fun path => (path, (value path).name) := by
  have hentries : (analysis.unused.map fun path =>
      (path, ((Assoc.ofEntries analysis.graph.fileEntries).get? path).getD "")) =
        analysis.unused.map fun path => (path, (value path).name) := by
    refine List.map_congr_left fun path hpath => ?_
    have hfile : path ∈ project.files := by
      rw [h.unused_eq] at hpath
      exact (List.mem_filter.mp hpath).1
    rw [h.get?_fileEntries hfile, Option.getD_some]
  have hnames :
      (Assoc.names (analysis.unused.map fun path => (path, (value path).name))).Nodup := by
    rw [Assoc.names, List.map_map]
    simpa [Function.comp_def] using h.nodup_unused
  calc
    analysis.unusedModules = Assoc.ofEntries (analysis.unused.map fun path =>
      (path, ((Assoc.ofEntries analysis.graph.fileEntries).get? path).getD "")) := rfl
    _ = _ := by rw [hentries, Assoc.ofEntries_eq_self hnames]

/-- The names of the unused modules are those that some file of the project declares and that are
not reached. -/
theorem mem_unusedNames_iff (h : analysis.RestsOn project value) {name : String} :
    name ∈ analysis.unusedModules.map Prod.snd ↔
      name ∉ analysis.reachable ∧ ∃ path ∈ project.files, (value path).name = name := by
  rw [h.unusedModules_eq, List.map_map, h.unused_eq, List.mem_map]
  constructor
  · rintro ⟨path, hpath, rfl⟩
    obtain ⟨hfile, hreachable⟩ := List.mem_filter.mp hpath
    exact ⟨by simpa using hreachable, path, hfile, rfl⟩
  · rintro ⟨hreachable, path, hfile, rfl⟩
    exact ⟨path, List.mem_filter.mpr ⟨hfile, by simpa using hreachable⟩, rfl⟩

/-- A root is always reached, also if no file declares it. -/
theorem mem_reachable_of_root (h : analysis.RestsOn project value) {name : String}
    (hname : name ∈ project.roots) : name ∈ analysis.reachable := by
  obtain ⟨-, hreachable, -⟩ := conclude_eq_ok h.concluded
  rw [hreachable]
  exact ImportGraph.mem_reachable_iff.mpr (.root hname)

/-- If the graph knows the roots, it knows all that is reached from them. -/
theorem reachable_subset (h : analysis.RestsOn project value)
    (hroots : ∀ root ∈ project.roots, root ∈ analysis.graph.names) :
    analysis.reachable ⊆ analysis.graph.adjacency.names := by
  intro name hname
  obtain ⟨-, hreachable, -⟩ := conclude_eq_ok h.concluded
  rw [hreachable, ← h.graph_eq.1] at hname
  exact ImportGraph.mem_names_of_mem_reachable hroots hname

/-- The names of the nodes are the reachable names and those of the unused files. As no name is
both, their numbers add up. -/
theorem mem_names_iff (h : analysis.RestsOn project value)
    (hroots : ∀ root ∈ project.roots, root ∈ analysis.graph.names) {name : String} :
    name ∈ analysis.graph.names ↔
      name ∈ analysis.reachable ∨ name ∈ analysis.unusedModules.map Prod.snd := by
  have hempty : name ∉ ImportGraph.empty.names := by simp [ImportGraph.empty, ImportGraph.names]
  have hsources : name ∈ analysis.graph.names ↔
      ∃ source ∈ sources project value, source.name = name := by
    rw [h.graph_eq.1, ImportGraph.mem_names_addAll, or_iff_right hempty]
  rw [h.mem_unusedNames_iff]
  constructor
  · intro hname
    by_cases hreachable : name ∈ analysis.reachable
    · exact .inl hreachable
    · obtain ⟨source, hsource, rfl⟩ := hsources.mp hname
      rcases List.mem_append.mp hsource with hfile | houtside
      · obtain ⟨path, hpath, rfl⟩ := List.mem_map.mp hfile
        exact .inr ⟨hreachable, path, hpath, rfl⟩
      · -- The name of the entry module is a root.
        refine .inl (h.mem_reachable_of_root ?_)
        rw [Project.roots, (Project.mem_entryOutside.mp houtside).1]
        exact List.mem_singleton_self _
  · rintro (hreachable | ⟨-, path, hpath, rfl⟩)
    · rw [← ImportGraph.names_adjacency]
      exact h.reachable_subset hroots hreachable
    · exact hsources.mpr ⟨value path, List.mem_append_left _ (List.mem_map_of_mem hpath), rfl⟩

/-- The nodes are as many as the reachable names and the different names of the unused files. -/
theorem length_nodes_eq (h : analysis.RestsOn project value)
    (hroots : ∀ root ∈ project.roots, root ∈ analysis.graph.names) :
    analysis.graph.nodes.length =
      analysis.reachable.length + (analysis.unusedModules.map Prod.snd).toFinset.card := by
  have hnames : analysis.graph.names.Nodup := by
    have hempty : ImportGraph.empty.names.Nodup := List.nodup_nil
    rw [h.graph_eq.1]
    exact ImportGraph.nodup_names_addAll hempty _
  have hreachable : analysis.reachable.Nodup := by
    rw [(conclude_eq_ok h.concluded).2.1]
    exact Text.nodup_eraseDups _
  have hunion : analysis.graph.names.toFinset =
      analysis.reachable.toFinset ∪ (analysis.unusedModules.map Prod.snd).toFinset := by
    ext name
    rw [Finset.mem_union, List.mem_toFinset, List.mem_toFinset, List.mem_toFinset,
      h.mem_names_iff hroots]
  have hdisjoint : Disjoint analysis.reachable.toFinset
      (analysis.unusedModules.map Prod.snd).toFinset := by
    rw [Finset.disjoint_left]
    intro name hname hunused
    rw [List.mem_toFinset] at hname hunused
    exact (h.mem_unusedNames_iff.mp hunused).1 hname
  calc
    analysis.graph.nodes.length = analysis.graph.names.length := (List.length_map _).symm
    _ = analysis.graph.names.toFinset.card := (List.toFinset_card_of_nodup hnames).symm
    _ = analysis.reachable.toFinset.card +
        (analysis.unusedModules.map Prod.snd).toFinset.card := by
      rw [hunion, Finset.card_union_of_disjoint hdisjoint]
    _ = _ := by rw [List.toFinset_card_of_nodup hreachable]

end RestsOn

end Analysis

end ElmReach
