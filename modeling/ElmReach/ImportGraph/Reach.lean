import ElmReach.Assoc

/-!
# Reachable names

Starting from some roots and following imports between names of a graph. All roots are reachable,
also those that are no names of the graph; from those, and to names outside of the graph, no import
is followed. The depth of a name is the least number of imports that lead to it from a root that is
a name of the graph; names are given their depths in the order of a queue.
-/

namespace ElmReach.ImportGraph

/-- The names that a name imports. -/
def targets (adjacency : Assoc (List String)) (name : String) : List String :=
  (adjacency.get? name).getD []

/-- The names among `fresh` that the pending names lead to, each one once. A name that is found is
no longer fresh. -/
def gather (adjacency : Assoc (List String)) (fresh pending : List String) : List String :=
  match pending with
  | [] => []
  | name :: rest =>
    if _ : name ∈ fresh then
      name :: gather adjacency (fresh.erase name) (rest ++ targets adjacency name)
    else gather adjacency fresh rest
termination_by (fresh.length, pending.length)
decreasing_by
  · rename_i h
    refine Prod.Lex.left _ _ ?_
    have hpos := List.length_pos_of_mem h
    rw [List.length_erase_of_mem h]
    omega
  · exact Prod.Lex.right _ (by simp)

/-- The reachable names, each one once. -/
def reachable (adjacency : Assoc (List String)) (roots : List String) : List String :=
  (roots ++ gather adjacency adjacency.names roots).eraseDups

/-- Give a depth to those of some names that are fresh, one after the other. The result is what
joins the queue for them, and the names that stay fresh. -/
def discover (depth : Nat) (fresh : List String) : List String → Assoc Nat × List String
  | [] => ([], fresh)
  | name :: rest =>
    if name ∈ fresh then
      let found := discover depth (fresh.filter (· ≠ name)) rest
      ((name, depth) :: found.1, found.2)
    else discover depth fresh rest

/-- Names that join a queue are no longer fresh. -/
theorem length_discover_le (depth : Nat) (fresh names : List String) :
    (discover depth fresh names).1.length + (discover depth fresh names).2.length ≤
      fresh.length := by
  induction names generalizing fresh with
  | nil => simp [discover]
  | cons name rest ih =>
    rw [discover]
    split
    · next hfresh =>
      have hless : (fresh.filter (· ≠ name)).length < fresh.length :=
        List.length_filter_lt_length_iff_exists.mpr ⟨name, hfresh, by simp⟩
      have hrest := ih (fresh.filter (· ≠ name))
      simp only [List.length_cons]
      omega
    · exact ih fresh

/-- Work off a queue of names with their depths, first in first out: the fresh names that the first
name imports join the queue, one deeper. The result is everything that was ever in the queue. -/
def traverse (adjacency : Assoc (List String)) (fresh : List String) (queue : Assoc Nat) :
    Assoc Nat :=
  match queue with
  | [] => []
  | (name, depth) :: rest =>
    let found := discover (depth + 1) fresh (targets adjacency name)
    (name, depth) :: traverse adjacency found.2 (rest ++ found.1)
termination_by fresh.length + queue.length
decreasing_by
  have hle := length_discover_le (depth + 1) fresh (targets adjacency name)
  simp only [List.length_append, List.length_cons]
  omega

/-- The depth of each name of the graph, in order; names that cannot be reached have none. The roots
that are names of the graph are the first in the queue. -/
def depths (adjacency : Assoc (List String)) (roots : List String) : Assoc (Option Nat) :=
  let start := discover 0 adjacency.names roots
  let found := traverse adjacency start.2 start.1
  adjacency.names.map fun name => (name, found.get? name)

end ElmReach.ImportGraph
