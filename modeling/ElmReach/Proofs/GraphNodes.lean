import ElmReach.Proofs.GraphTotals
import Mathlib.Algebra.BigOperators.Group.List.Basic
import Mathlib.Algebra.GroupWithZero.Nat

/-!
# The nodes of a graph and its modules

A graph grows by one module at a time, and a name may be imported before a module declares it. At
each step the nodes are determined by the modules that were added so far: there is one for each
name, with the imports and the files of all modules that have the name. What is internal and what is
external is read off the finished graph, so it does not depend on the order of the modules.
-/

namespace ElmReach.ImportGraph

variable {graph : ImportGraph} {modules : List SourceModule}

/-- The modules that have a name. Several files may declare the same one, and all of them go into
one node. -/
def named (modules : List SourceModule) (name : String) : List SourceModule :=
  modules.filter (·.name = name)

/-- The node of a name: the imports and the files of all modules that have the name. -/
def nodeOf (modules : List SourceModule) (name : String) : ModuleNode where
  name
  imports := addNames [] ((named modules name).flatMap SourceModule.importNames)
  files := (named modules name).map SourceModule.path

/-- The different names of some modules, in order of first occurrence. They are the names of the
graph of these modules. -/
def namesOf (modules : List SourceModule) : List String :=
  (modules.map SourceModule.name).eraseDups

/-- The graph is that of some modules: it has the node of each of their names, in order. This is
what adding a module keeps. -/
def IsGraphOf (graph : ImportGraph) (modules : List SourceModule) : Prop :=
  graph.nodes = (namesOf modules).map (nodeOf modules)

/-- Adding names one list after the other adds all of them. -/
theorem addNames_append (known first second : List String) :
    addNames known (first ++ second) = addNames (addNames known first) second := by
  fun_induction addNames known first with
  | case1 known => rfl
  | case2 known name rest hknown ih => rw [List.cons_append, addNames, if_pos hknown, ih]
  | case3 known name rest hknown ih => rw [List.cons_append, addNames, if_neg hknown, ih]

/-- Adding names keeps them different. -/
theorem nodup_addNames {known : List String} (hknown : known.Nodup) (names : List String) :
    (addNames known names).Nodup := by
  fun_induction addNames known names with
  | case1 known => exact hknown
  | case2 known name rest _ ih => exact ih hknown
  | case3 known name rest hname ih => exact ih (List.nodup_append_comm.mp (hknown.cons hname))

/-- The modules of a name are those that declare it. -/
theorem mem_named_iff {name : String} {source : SourceModule} :
    source ∈ named modules name ↔ source ∈ modules ∧ source.name = name := by
  simp [named]

/-- A name is known if a module declares it. -/
theorem mem_namesOf_iff {name : String} :
    name ∈ namesOf modules ↔ ∃ source ∈ modules, source.name = name := by
  rw [namesOf, List.mem_eraseDups, List.mem_map]

/-- A further module adds its name at the end, unless the name is known. -/
theorem namesOf_append (modules : List SourceModule) (source : SourceModule) :
    namesOf (modules ++ [source]) =
      if source.name ∈ namesOf modules then namesOf modules
      else namesOf modules ++ [source.name] := by
  have hmem : source.name ∈ namesOf modules ↔ source.name ∈ modules.map SourceModule.name :=
    List.mem_eraseDups
  rw [namesOf, List.map_append, List.eraseDups_append, ← namesOf, List.map_singleton,
    List.removeAll, List.filter_cons, List.filter_nil, List.elem_eq_mem]
  by_cases hname : source.name ∈ modules.map SourceModule.name
  · rw [if_pos (hmem.mpr hname), if_neg (by simpa using hname), List.eraseDups_nil, List.append_nil]
  · rw [if_neg (hmem.not.mpr hname), if_pos (by simpa using hname)]
    rfl

/-- A module extends the node of its name and leaves the other nodes as they are. -/
theorem nodeOf_append (modules : List SourceModule) (source : SourceModule) (name : String) :
    nodeOf (modules ++ [source]) name =
      if name = source.name then
        { name
          imports := addNames (nodeOf modules name).imports source.importNames
          files := (nodeOf modules name).files ++ [source.path] }
      else nodeOf modules name := by
  by_cases hname : name = source.name
  · simp [nodeOf, named, hname, addNames_append]
  · simp [nodeOf, named, hname, Ne.symm hname]

/-- Adding a module to the nodes of some names adds it to the node of its own name. If the name is
new, a node is made for it at the end. -/
theorem addToNodes_map_nodeOf {source : SourceModule} {names : List String} (hnames : names.Nodup)
    (hnew : source.name ∉ names → named modules source.name = []) :
    addToNodes source (names.map (nodeOf modules)) =
      (if source.name ∈ names then names else names ++ [source.name]).map
        (nodeOf (modules ++ [source])) := by
  induction names with
  | nil =>
    have hnone : named modules source.name = [] := hnew List.not_mem_nil
    rw [if_neg List.not_mem_nil, List.nil_append, List.map_singleton, nodeOf_append, if_pos rfl,
      nodeOf, hnone]
    rfl
  | cons first rest ih =>
    obtain ⟨hfirst, hrest⟩ := List.nodup_cons.mp hnames
    have hnode : (nodeOf modules first).name = first := rfl
    rw [List.map_cons, addToNodes, hnode]
    by_cases hname : first = source.name
    · have hothers : rest.map (nodeOf (modules ++ [source])) = rest.map (nodeOf modules) := by
        refine List.map_congr_left fun name hmem => ?_
        have hne : name ≠ source.name := by
          rintro rfl
          exact hfirst (hname ▸ hmem)
        rw [nodeOf_append, if_neg hne]
      rw [if_pos hname, if_pos (hname ▸ List.mem_cons_self), List.map_cons, hothers, nodeOf_append,
        if_pos hname]
    · have hmem : source.name ∈ first :: rest ↔ source.name ∈ rest := by
        simp [Ne.symm hname]
      have hsame : nodeOf (modules ++ [source]) first = nodeOf modules first := by
        rw [nodeOf_append, if_neg hname]
      rw [if_neg hname, ih hrest fun h => hnew (hmem.not.mpr h), ← hsame]
      by_cases hrestMem : source.name ∈ rest
      · rw [if_pos hrestMem, if_pos (hmem.mpr hrestMem), List.map_cons]
      · rw [if_neg hrestMem, if_neg (hmem.not.mpr hrestMem), List.cons_append, List.map_cons]

/-- A module that is added is one more module of the graph. This is the step of building a graph;
the run of all modules follows by induction. -/
theorem IsGraphOf.add (h : graph.IsGraphOf modules) (source : SourceModule) :
    (graph.add source).IsGraphOf (modules ++ [source]) := by
  have hnew (hname : source.name ∉ namesOf modules) : named modules source.name = [] := by
    refine List.filter_eq_nil_iff.mpr fun other hother heq => hname ?_
    exact mem_namesOf_iff.mpr ⟨other, hother, by simpa using heq⟩
  have hnames : (namesOf modules).Nodup := Text.nodup_eraseDups _
  rw [IsGraphOf, ImportGraph.add, h, addToNodes_map_nodeOf hnames hnew, namesOf_append]

/-- A graph of some modules becomes, with others added, the graph of all of them. -/
theorem IsGraphOf.addAll (h : graph.IsGraphOf modules) (others : List SourceModule) :
    (graph.addAll others).2.IsGraphOf (modules ++ others) := by
  induction others generalizing graph modules with
  | nil => simpa [ImportGraph.addAll] using h
  | cons source rest ih =>
    have hrest := ih (h.add source)
    rwa [List.append_assoc] at hrest

/-- The graph that is built up from nothing is the graph of the modules that were added. -/
theorem isGraphOf_addAll (modules : List SourceModule) :
    (empty.addAll modules).2.IsGraphOf modules := by
  have hempty : empty.IsGraphOf [] := rfl
  exact hempty.addAll modules

namespace IsGraphOf

/-- The names of the graph are those that the modules declare, in the order of their first
occurrences. -/
theorem names_eq (h : graph.IsGraphOf modules) : graph.names = namesOf modules := by
  rw [names, h, List.map_map]
  exact List.map_id _

/-- No name of the graph occurs twice. -/
theorem nodup_names (h : graph.IsGraphOf modules) : graph.names.Nodup := by
  rw [h.names_eq]
  exact Text.nodup_eraseDups _

/-- Each name stands for the imports of all modules that declare it, in one node. -/
theorem adjacency_eq (h : graph.IsGraphOf modules) :
    graph.adjacency = (namesOf modules).map fun name => (name, (nodeOf modules name).imports) := by
  rw [adjacency, h, List.map_map]
  rfl

/-- Each name stands for the files of all modules that declare it, in the order of the modules. -/
theorem files_eq (h : graph.IsGraphOf modules) :
    graph.files = (namesOf modules).map fun name => (name, (nodeOf modules name).files) := by
  rw [files, h, List.map_map]
  rfl

/-- A name of the graph has the imports of its node; no other name has any. -/
theorem get?_adjacency (h : graph.IsGraphOf modules) (name : String) :
    graph.adjacency.get? name =
      if name ∈ namesOf modules then some (nodeOf modules name).imports else none := by
  rw [h.adjacency_eq, Assoc.get?_map fun name => (nodeOf modules name).imports]

/-- The external imports of a node are listed if there are some. -/
theorem get?_external (h : graph.IsGraphOf modules) (name : String) :
    graph.external.get? name =
      if name ∈ namesOf modules then
        (some (graph.externalOf (nodeOf modules name))).filter (!·.isEmpty)
      else none := by
  have htable : (graph.nodes.map fun node => (node.name, graph.externalOf node)) =
      (namesOf modules).map fun name => (name, graph.externalOf (nodeOf modules name)) := by
    rw [h, List.map_map]
    rfl
  have hnames : (Assoc.names ((namesOf modules).map fun name =>
      (name, graph.externalOf (nodeOf modules name)))).Nodup := by
    rw [Assoc.names, List.map_map]
    exact (List.map_id (namesOf modules)).symm ▸ Text.nodup_eraseDups _
  rw [external, htable, Assoc.get?_filter _ hnames,
    Assoc.get?_map fun name => graph.externalOf (nodeOf modules name)]
  split <;> rfl

end IsGraphOf

/-- A module is imported from a name if one of the modules that declare the name imports it. -/
theorem mem_imports_nodeOf_iff {name target : String} :
    target ∈ (nodeOf modules name).imports ↔
      ∃ source ∈ modules, source.name = name ∧ target ∈ source.importNames := by
  simp only [nodeOf, mem_addNames, List.not_mem_nil, false_or, List.mem_flatMap, mem_named_iff,
    and_assoc]

/-- Each import of a node is internal or external. So the edges of the graph and the external
imports add up to all imports. -/
theorem length_edges_add_external (graph : ImportGraph) :
    graph.edges.length + (graph.external.map (·.2.length)).sum =
      (graph.adjacency.map (·.2.length)).sum := by
  have hexternal : (graph.external.map (·.2.length)).sum =
      (graph.nodes.map fun node => (graph.externalOf node).length).sum := by
    rw [external]
    induction graph.nodes with
    | nil => rfl
    | cons node rest ih =>
      by_cases hempty : graph.externalOf node = []
      · simpa [hempty] using ih
      · simpa [hempty] using ih
  have hnode (node : ModuleNode) :
      (node.imports.filter (· ∈ graph.names)).length + (graph.externalOf node).length =
        node.imports.length := by
    rw [externalOf, List.length_eq_length_filter_add (l := node.imports) (· ∈ graph.names)]
    simp
  rw [hexternal, edges, List.length_flatMap, adjacency, List.map_map, ← List.sum_map_add]
  refine congrArg List.sum (List.map_congr_left fun node _ => ?_)
  simpa using hnode node

/-- A module is reported if its name is not a new one. -/
theorem length_repeatedName_add (graph : ImportGraph) (source : SourceModule) :
    (graph.repeatedName source).length + (graph.add source).nodes.length =
      graph.nodes.length + 1 := by
  obtain ⟨nodes⟩ := graph
  simp only [repeatedName, ImportGraph.add]
  induction nodes with
  | nil => rfl
  | cons node rest ih =>
    by_cases hname : node.name = source.name
    · simp [addToNodes, hname, Nat.add_comm]
    · rw [List.find?_cons_of_neg (by simpa using hname), addToNodes, if_neg hname, List.length_cons,
        List.length_cons, ← Nat.add_assoc, ih]

/-- Each module is a new node or is reported. So the nodes and the warnings add up to the
modules. -/
theorem length_records_addAll (graph : ImportGraph) (modules : List SourceModule) :
    (graph.addAll modules).1.length + (graph.addAll modules).2.nodes.length =
      graph.nodes.length + modules.length := by
  induction modules generalizing graph with
  | nil => simp [addAll]
  | cons source rest ih =>
    have hstep := length_repeatedName_add graph source
    have hrest := ih (graph.add source)
    have hrecords : (graph.addAll (source :: rest)).1 =
        graph.repeatedName source ++ ((graph.add source).addAll rest).1 := rfl
    have hgraph : (graph.addAll (source :: rest)).2 = ((graph.add source).addAll rest).2 := rfl
    rw [hrecords, hgraph, List.length_append, List.length_cons]
    omega

/-- What is reported while a graph is built are warnings only. -/
theorem level_of_mem_records {record : LogRecord} (h : record ∈ (graph.addAll modules).1) :
    record.level = Level.warning := by
  induction modules generalizing graph with
  | nil => simp [addAll] at h
  | cons source rest ih =>
    rcases List.mem_append.mp h with hhere | hrest
    · unfold repeatedName at hhere
      split at hhere
      · simp at hhere
      · rw [List.mem_singleton.mp hhere]
    · exact ih hrest

/-- What a graph tells about its modules: its names and their nodes, the files, the external imports
and the number of its edges. -/
structure Describes (graph : ImportGraph) (modules : List SourceModule) : Prop where
  /-- The imports are listed by the names of the modules, in order of first occurrence. -/
  names_adjacency : graph.adjacency.names = namesOf modules
  /-- So are the files. -/
  names_files : graph.files.names = namesOf modules
  /-- A name imports what some module with this name imports, each target once. -/
  imports : ∀ name ∈ namesOf modules, ∃ imports, graph.adjacency.get? name = some imports ∧
    imports.Nodup ∧
      ∀ target, target ∈ imports ↔
        ∃ source ∈ modules, source.name = name ∧ target ∈ source.importNames
  /-- The files of a name are those of the modules with this name, in the order of the modules. -/
  files : ∀ name ∈ namesOf modules,
    graph.files.get? name = some ((named modules name).map SourceModule.path)
  /-- Each module is one entry of the files. -/
  fileEntries : graph.fileEntries.Perm (modules.map fun source => (source.path, source.name))
  /-- A name has external imports if it imports a name that no module has. -/
  mem_names_external : ∀ name, name ∈ graph.external.names ↔
    ∃ imports, graph.adjacency.get? name = some imports ∧
      ∃ target ∈ imports, target ∉ graph.adjacency.names
  /-- No name stands twice among those with external imports. -/
  nodup_names_external : graph.external.names.Nodup
  /-- The external imports of a name are those of its imports that no module has as its name. -/
  external : ∀ name outside imports, graph.external.get? name = some outside →
    graph.adjacency.get? name = some imports → outside.Nodup ∧
      ∀ target, target ∈ outside ↔ target ∈ imports ∧ target ∉ graph.adjacency.names
  /-- Internal and external imports make up all imports. -/
  totals : graph.edges.length + (graph.external.map (·.2.length)).sum =
    (graph.adjacency.map (·.2.length)).sum

namespace IsGraphOf

/-- The external names of a name are those of its node that the graph does not know. Names without
any are not listed. -/
theorem get?_external_eq_some (h : graph.IsGraphOf modules) {name : String} {outside : List String}
    (houtside : graph.external.get? name = some outside) :
    name ∈ namesOf modules ∧ outside = graph.externalOf (nodeOf modules name) := by
  rw [h.get?_external] at houtside
  split at houtside
  · next hname =>
    obtain ⟨heq, -⟩ := Option.filter_eq_some_iff.mp houtside
    exact ⟨hname, (Option.some.inj heq).symm⟩
  · cases houtside

/-- A name is listed among the external ones exactly if its node imports a name that the graph does
not know. -/
theorem mem_names_external_iff (h : graph.IsGraphOf modules) {name : String} :
    name ∈ graph.external.names ↔
      name ∈ namesOf modules ∧ ∃ target ∈ (nodeOf modules name).imports, target ∉ graph.names := by
  have hne : (!(graph.externalOf (nodeOf modules name)).isEmpty) = true ↔
      ∃ target ∈ (nodeOf modules name).imports, target ∉ graph.names := by
    simp [externalOf]
  rw [← Assoc.isSome_get?_iff, h.get?_external, ← hne]
  by_cases hname : name ∈ namesOf modules
  · simp [hname, Option.filter]
  · simp [hname]

/-- The graph of the modules describes them, if the entries of its files are the files of the
modules in some order. -/
theorem describes (h : graph.IsGraphOf modules)
    (hentries : graph.fileEntries.Perm (modules.map fun source => (source.path, source.name))) :
    graph.Describes modules where
  names_adjacency := by rw [ImportGraph.names_adjacency, h.names_eq]
  names_files := by
    rw [h.files_eq, Assoc.names, List.map_map]
    exact List.map_id _
  imports name hname := by
    refine ⟨(nodeOf modules name).imports, by rw [h.get?_adjacency, if_pos hname], ?_, ?_⟩
    · exact nodup_addNames List.nodup_nil _
    · exact fun target => mem_imports_nodeOf_iff
  files name hname := by
    rw [h.files_eq, Assoc.get?_map fun name => (nodeOf modules name).files, if_pos hname]
    rfl
  fileEntries := hentries
  mem_names_external name := by
    rw [h.mem_names_external_iff, h.get?_adjacency, ImportGraph.names_adjacency]
    by_cases hname : name ∈ namesOf modules
    · simp [hname]
    · simp [hname]
  nodup_names_external := by
    have hnames : (Assoc.names
        (graph.nodes.map fun node => (node.name, graph.externalOf node))).Nodup := by
      rw [Assoc.names, List.map_map]
      exact h.nodup_names
    exact Assoc.nodup_names_filter _ hnames
  external name outside imports houtside himports := by
    obtain ⟨hname, rfl⟩ := h.get?_external_eq_some houtside
    rw [h.get?_adjacency, if_pos hname] at himports
    obtain rfl := Option.some.inj himports
    refine ⟨(nodup_addNames List.nodup_nil _).filter _, fun target => ?_⟩
    simp [externalOf, ImportGraph.names_adjacency]
  totals := length_edges_add_external graph

end IsGraphOf

/-- The warnings of a build are those for repeated names. The other record, which says how large the
graph is, is none. -/
theorem filter_warning_build (modules : List SourceModule) (past : List LogRecord) :
    (build modules past).records.filter (·.level = Level.warning) = (empty.addAll modules).1 := by
  obtain ⟨last, hrecords, hlast⟩ : ∃ last : LogRecord,
      (build modules past).records = (empty.addAll modules).1 ++ [last] ∧
        last.level = Level.debug := ⟨_, rfl, rfl⟩
  have hwarnings : (empty.addAll modules).1.filter (·.level = Level.warning) =
      (empty.addAll modules).1 :=
    List.filter_eq_self.mpr fun record hrecord => by simpa using level_of_mem_records hrecord
  rw [hrecords, List.filter_append, hwarnings, List.filter_singleton, hlast]
  exact List.append_nil _

/-- The graph of any modules, in any order and with repeated names, describes them, and there is a
warning for each module whose name is not a new one. -/
theorem build_describes (modules : List SourceModule) (past : List LogRecord) :
    ∃ graph, (build modules past).outcome = .ok graph ∧ graph.Describes modules ∧
      ((build modules past).records.filter (·.level = Level.warning)).length +
        graph.adjacency.names.length = modules.length := by
  have hentries := perm_fileEntries_addAll empty modules
  refine ⟨(empty.addAll modules).2, rfl, (isGraphOf_addAll modules).describes hentries, ?_⟩
  calc
    _ = (empty.addAll modules).1.length + (empty.addAll modules).2.nodes.length := by
      rw [filter_warning_build, names_adjacency, names, List.length_map]
    _ = empty.nodes.length + modules.length := length_records_addAll empty modules
    _ = modules.length := Nat.zero_add _

end ElmReach.ImportGraph
