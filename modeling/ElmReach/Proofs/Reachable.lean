import ElmReach.ImportGraph.Reach
import Mathlib.Order.Bounds.Defs
import Mathlib.Tactic.Common

/-!
# Reachable names

The names that the search finds are the least set that holds the roots and that is closed under
imports between names of the graph. The search is sound, because it only goes on to imported names;
it is complete, because the names that it has found are closed under imports of fresh names.
-/

namespace ElmReach.ImportGraph

/-- A name is a root, or a name of the graph that a reachable name imports. -/
inductive Reach (adjacency : Assoc (List String)) (roots : List String) : String → Prop where
  | root {name : String} (hroot : name ∈ roots) : Reach adjacency roots name
  | step {name target : String} (hname : Reach adjacency roots name)
    (htarget : target ∈ targets adjacency name) (hnode : target ∈ adjacency.names) :
    Reach adjacency roots target

variable {adjacency : Assoc (List String)}

/-- A name that imports something is a name of the graph. -/
theorem mem_names_of_mem_targets {name target : String} (h : target ∈ targets adjacency name) :
    name ∈ adjacency.names := by
  unfold targets Assoc.get? at h
  cases hlookup : List.lookup name adjacency with
  | none => simp [hlookup] at h
  | some imports =>
    obtain ⟨front, rest, rfl, -⟩ := List.lookup_eq_some_iff.mp hlookup
    simp [Assoc.names]

/-- What is true of the fresh pending names, and passed on to fresh imported names, is true of all
names that are gathered. -/
theorem gather_sound {P : String → Prop} {fresh pending : List String}
    (hpending : ∀ name ∈ pending, name ∈ fresh → P name)
    (hstep : ∀ name target, P name → target ∈ targets adjacency name → target ∈ fresh → P target) :
    ∀ name ∈ gather adjacency fresh pending, P name := by
  fun_induction gather adjacency fresh pending with
  | case1 => simp
  | case2 fresh first rest hfresh ih =>
    have hfirst := hpending first List.mem_cons_self hfresh
    intro name hname
    rcases List.mem_cons.mp hname with rfl | hname
    · exact hfirst
    · refine ih ?_ ?_ name hname
      · intro other hother hstill
        have hother' := List.mem_of_mem_erase hstill
        rcases List.mem_append.mp hother with hrest | htarget
        · exact hpending other (List.mem_cons_of_mem first hrest) hother'
        · exact hstep first other hfirst htarget hother'
      · intro name target hname htarget hstill
        exact hstep name target hname htarget (List.mem_of_mem_erase hstill)
  | case3 fresh first rest hfresh ih =>
    exact ih (fun name hname => hpending name (List.mem_cons_of_mem first hname)) hstep

/-- Every fresh pending name is gathered, sooner or later: the search goes on until nothing is
pending. -/
theorem mem_gather_of_pending {fresh pending : List String} {name : String}
    (hfresh : name ∈ fresh) (hpending : name ∈ pending) :
    name ∈ gather adjacency fresh pending := by
  fun_induction gather adjacency fresh pending with
  | case1 => simp at hpending
  | case2 fresh first rest hfirst ih =>
    by_cases heq : name = first
    · exact heq ▸ List.mem_cons_self
    · have hrest : name ∈ rest := (List.mem_cons.mp hpending).resolve_left heq
      have hstill := (List.mem_erase_of_ne heq).mpr hfresh
      exact List.mem_cons_of_mem first (ih hstill (List.mem_append_left _ hrest))
  | case3 fresh first rest hfirst ih =>
    have hne : name ≠ first := fun heq => hfirst (heq ▸ hfresh)
    exact ih hfresh ((List.mem_cons.mp hpending).resolve_left hne)

/-- Gathered names are closed under imports of fresh names. -/
theorem gather_closed {fresh pending : List String} {name target : String}
    (hname : name ∈ gather adjacency fresh pending) (htarget : target ∈ targets adjacency name)
    (hfresh : target ∈ fresh) : target ∈ gather adjacency fresh pending := by
  fun_induction gather adjacency fresh pending with
  | case1 => simp at hname
  | case2 fresh first rest hfirst ih =>
    by_cases heq : target = first
    · exact heq ▸ List.mem_cons_self
    · have hstill := (List.mem_erase_of_ne heq).mpr hfresh
      refine List.mem_cons_of_mem first ?_
      rcases List.mem_cons.mp hname with rfl | hname
      · exact mem_gather_of_pending hstill (List.mem_append_right _ htarget)
      · exact ih hname hstill
  | case3 fresh first rest hfirst ih => exact ih hname hfresh

/-- The search finds exactly the reachable names. It finds nothing else, and what it finds is closed
under imports, so that nothing is left out. -/
theorem mem_reachable_iff {roots : List String} {name : String} :
    name ∈ reachable adjacency roots ↔ Reach adjacency roots name := by
  rw [reachable, List.mem_eraseDups, List.mem_append]
  constructor
  · rintro (hroot | hgathered)
    · exact .root hroot
    · refine gather_sound ?_ ?_ name hgathered
      · exact fun other hroot _ => .root hroot
      · exact fun other target hother htarget hnode => .step hother htarget hnode
  · intro hreach
    induction hreach with
    | root hroot => exact .inl hroot
    | @step other target _ htarget hnode ih =>
      have hgathered : other ∈ gather adjacency adjacency.names roots :=
        ih.elim (mem_gather_of_pending (mem_names_of_mem_targets htarget)) id
      exact .inr (gather_closed hgathered htarget hnode)

/-- A set of names holds all roots, and with a name of the graph also the names of the graph that
this name imports. -/
structure IsClosed (adjacency : Assoc (List String)) (roots : List String) (names : Set String) :
    Prop where
  roots : ∀ name ∈ roots, name ∈ names
  step : ∀ name ∈ names, ∀ imports, adjacency.get? name = some imports →
    ∀ target ∈ imports, target ∈ adjacency.names → target ∈ names

/-- The names that can be reached are closed: they hold the roots, and what is imported from them.
That they are the least such set is an induction on how a name is reached. -/
theorem isClosed_reach (adjacency : Assoc (List String)) (roots : List String) :
    IsClosed adjacency roots {name | Reach adjacency roots name} where
  roots _ hroot := .root hroot
  step name hname imports himports target htarget hnode := by
    have htarget' : target ∈ targets adjacency name := by rwa [targets, himports]
    exact Reach.step hname htarget' hnode

/-- A closed set holds every name that can be reached. -/
theorem IsClosed.mem_of_reach {roots : List String} {names : Set String} {name : String}
    (h : IsClosed adjacency roots names) (hreach : Reach adjacency roots name) : name ∈ names := by
  induction hreach with
  | root hroot => exact h.roots _ hroot
  | @step name target _ htarget hnode ih =>
    unfold targets at htarget
    cases himports : adjacency.get? name with
    | none => simp [himports] at htarget
    | some imports =>
      rw [himports] at htarget
      exact h.step name ih imports himports target htarget hnode

/-- Two graphs have the same names, and each name has the same imports, in whatever order and
however often they are listed. -/
structure SameImports (adjacency other : Assoc (List String)) : Prop where
  names : ∀ name, name ∈ other.names ↔ name ∈ adjacency.names
  targets : ∀ name target, target ∈ targets other name ↔ target ∈ targets adjacency name

/-- Having the same imports is symmetric. -/
theorem SameImports.symm {other : Assoc (List String)} (h : SameImports adjacency other) :
    SameImports other adjacency :=
  ⟨fun name => (h.names name).symm, fun name target => (h.targets name target).symm⟩

/-- What can be reached stays so if the imports of each name are listed in another order, or more
than once. -/
theorem Reach.of_sameImports {other : Assoc (List String)} {roots : List String} {name : String}
    (h : Reach adjacency roots name) (hsame : SameImports adjacency other) :
    Reach other roots name := by
  induction h with
  | root hroot => exact .root hroot
  | step _ htarget hnode ih =>
    exact .step ih ((hsame.targets _ _).mpr htarget) ((hsame.names _).mpr hnode)

/-- The search finds the least set that holds the roots and is closed under imports between names of
the graph. In whatever order the imports of the names are listed, it finds the same set. -/
theorem isLeast_reachable (adjacency : Assoc (List String)) (roots : List String) :
    IsLeast {names | IsClosed adjacency roots names} {name | name ∈ reachable adjacency roots} ∧
      ∀ other, SameImports adjacency other →
        ∀ name, name ∈ reachable other roots ↔ name ∈ reachable adjacency roots := by
  have hreach : {name | name ∈ reachable adjacency roots} = {name | Reach adjacency roots name} :=
    Set.ext fun name => mem_reachable_iff
  refine ⟨⟨?_, fun names hclosed name hname => ?_⟩, fun other hsame name => ?_⟩
  · rw [hreach]
    exact isClosed_reach adjacency roots
  · exact IsClosed.mem_of_reach hclosed (mem_reachable_iff.mp hname)
  · rw [mem_reachable_iff, mem_reachable_iff]
    exact ⟨fun h => h.of_sameImports hsame.symm, fun h => h.of_sameImports hsame⟩

end ElmReach.ImportGraph
