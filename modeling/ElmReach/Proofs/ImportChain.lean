import ElmReach.ImportGraph.Basic
import ElmReach.Proofs.Reachable
import Mathlib.Tactic.Common

/-!
# Chains of imports

The graph of some modules has a node for each of their names, and the imports of a node are those of
all modules with its name. So the reachable names are those at the end of a chain of imports between
the modules, which is said here without the graph.
-/

namespace ElmReach

/-- A chain of imports leads from a root to a name. Each name of the chain behind the root is the
name of a module, and a module that has the name in front of it imports it. -/
inductive ImportChain (isModule : SourceModule → Prop) (roots : List String) : String → Prop where
  | root {name : String} (hroot : name ∈ roots) : ImportChain isModule roots name
  | step {name next : String} {importer declared : SourceModule}
    (hname : ImportChain isModule roots name)
    (himporter : isModule importer) (himporterName : importer.name = name)
    (himport : next ∈ importer.importNames)
    (hdeclared : isModule declared) (hdeclaredName : declared.name = next) :
    ImportChain isModule roots next

/-- A chain only needs the modules whose names it reaches. So a chain stays one if all other modules
are taken away. -/
theorem ImportChain.mono {isModule other : SourceModule → Prop} {roots : List String}
    {name : String} (h : ImportChain isModule roots name)
    (hmodules : ∀ source, isModule source → ImportChain isModule roots source.name → other source) :
    ImportChain other roots name := by
  induction h with
  | root hroot => exact .root hroot
  | step hname himporter himporterName himport hdeclared hdeclaredName ih =>
    have hnext := ImportChain.step hname himporter himporterName himport hdeclared hdeclaredName
    have himporter' := hmodules _ himporter (himporterName ▸ hname)
    have hdeclared' := hmodules _ hdeclared (hdeclaredName ▸ hnext)
    exact .step ih himporter' himporterName himport hdeclared' hdeclaredName

namespace ImportGraph

/-- A name is known after adding names if it was known or is one of them. -/
theorem mem_addNames {known names : List String} {name : String} :
    name ∈ addNames known names ↔ name ∈ known ∨ name ∈ names := by
  fun_induction addNames known names with
  | case1 known => simp
  | case2 known first rest hknown ih =>
    rw [ih, List.mem_cons]
    constructor
    · rintro (h | h)
      · exact .inl h
      · exact .inr (.inr h)
    · rintro (h | rfl | h)
      · exact .inl h
      · exact .inl hknown
      · exact .inr h
  | case3 known first rest hknown ih => simp [ih, or_assoc]

/-- The names of the adjacency are those of the graph, in the same order. -/
theorem names_adjacency (graph : ImportGraph) : graph.adjacency.names = graph.names := by
  simp [adjacency, Assoc.names, names]

/-- A graph with one module more knows the names that it knew and that of the module. -/
theorem mem_names_add {graph : ImportGraph} {source : SourceModule} {name : String} :
    name ∈ (graph.add source).names ↔ name ∈ graph.names ∨ source.name = name := by
  obtain ⟨nodes⟩ := graph
  simp only [add, names]
  induction nodes with
  | nil => simp [addToNodes, eq_comm]
  | cons node rest ih =>
    by_cases hname : node.name = source.name
    · simp only [addToNodes, if_pos hname, List.map_cons, List.mem_cons]
      constructor
      · exact .inl
      · rintro (h | rfl)
        · exact h
        · exact .inl hname.symm
    · rw [addToNodes, if_neg hname, List.map_cons, List.map_cons, List.mem_cons, List.mem_cons, ih,
        or_assoc]

/-- A module adds its imports to those of its name. The targets of the other names stay as they
are. -/
theorem mem_targets_add {graph : ImportGraph} {source : SourceModule} {name target : String} :
    target ∈ targets (graph.add source).adjacency name ↔
      target ∈ targets graph.adjacency name ∨
        source.name = name ∧ target ∈ source.importNames := by
  obtain ⟨nodes⟩ := graph
  simp only [add, adjacency, targets, Assoc.get?]
  induction nodes with
  | nil =>
    by_cases hname : source.name = name
    · subst hname
      simp [addToNodes, mem_addNames]
    · have hbeq : (name == source.name) = false := beq_eq_false_iff_ne.mpr (Ne.symm hname)
      simp [addToNodes, List.lookup_cons, hbeq, hname]
  | cons node rest ih =>
    by_cases hnode : node.name = name
    · subst hnode
      by_cases hname : node.name = source.name
      · simp [addToNodes, hname, mem_addNames]
      · simp [addToNodes, hname, Ne.symm hname]
    · have hbeq : (name == node.name) = false := beq_eq_false_iff_ne.mpr (Ne.symm hnode)
      by_cases hname : node.name = source.name
      · have hsource : source.name ≠ name := hname ▸ hnode
        simp [addToNodes, hname, List.lookup_cons, hname ▸ hbeq, hsource]
      · simpa [addToNodes, hname, List.lookup_cons, hbeq] using ih

/-- The names of the graph of some modules: a name is known if it was known before, or if one of the
modules has it. -/
theorem mem_names_addAll {graph : ImportGraph} {modules : List SourceModule} {name : String} :
    name ∈ (graph.addAll modules).2.names ↔
      name ∈ graph.names ∨ ∃ source ∈ modules, source.name = name := by
  induction modules generalizing graph with
  | nil => simp [addAll]
  | cons source rest ih =>
    have hadd : (graph.addAll (source :: rest)).2 = ((graph.add source).addAll rest).2 := rfl
    rw [hadd, ih, mem_names_add, or_assoc]
    simp

/-- The imports of a name in the graph of some modules are those of all modules with the name. -/
theorem mem_targets_addAll {graph : ImportGraph} {modules : List SourceModule}
    {name target : String} :
    target ∈ targets (graph.addAll modules).2.adjacency name ↔
      target ∈ targets graph.adjacency name ∨
        ∃ source ∈ modules, source.name = name ∧ target ∈ source.importNames := by
  induction modules generalizing graph with
  | nil => simp [addAll]
  | cons source rest ih =>
    have hadd : (graph.addAll (source :: rest)).2 = ((graph.add source).addAll rest).2 := rfl
    rw [hadd, ih, mem_targets_add, or_assoc]
    simp

/-- The names that can be reached in the graph of some modules are those at the end of a chain of
imports between the modules. -/
theorem reach_iff_importChain {modules : List SourceModule} {roots : List String} {name : String} :
    Reach (empty.addAll modules).2.adjacency roots name ↔
      ImportChain (· ∈ modules) roots name := by
  constructor
  · intro h
    induction h with
    | root hroot => exact .root hroot
    | step _ htarget hnode ih =>
      rw [names_adjacency, mem_names_addAll] at hnode
      rw [mem_targets_addAll] at htarget
      obtain ⟨importer, himporter, himporterName, himport⟩ := htarget.resolve_left (by
        simp [empty, adjacency, targets, Assoc.get?])
      obtain ⟨declared, hdeclared, hdeclaredName⟩ := hnode.resolve_left (by simp [empty, names])
      exact .step ih himporter himporterName himport hdeclared hdeclaredName
  · intro h
    induction h with
    | root hroot => exact .root hroot
    | @step name next importer declared _ himporter himporterName himport hdeclared hdeclaredName
        ih =>
      have htarget : next ∈ targets (empty.addAll modules).2.adjacency name :=
        mem_targets_addAll.mpr (.inr ⟨importer, himporter, himporterName, himport⟩)
      refine .step ih htarget ?_
      rw [names_adjacency]
      exact mem_names_addAll.mpr (.inr ⟨declared, hdeclared, hdeclaredName⟩)

end ImportGraph

end ElmReach
