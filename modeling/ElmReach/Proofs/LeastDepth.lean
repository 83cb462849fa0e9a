import ElmReach.Proofs.MergedTables
import ElmReach.Proofs.Reachable
import ElmReach.Report.Unused
import Mathlib.Data.Nat.Find
import Mathlib.Order.Bounds.Basic

/-!
# The depth of a name

The depth of a name is the length of a shortest path to it. A queue finds the names in the order of
their depths: at any time it holds names of one depth and behind them names that are one deeper. The
names of one depth are a frontier among the names that had no depth before, and a shortest path
loses its first step when the queue goes on from one frontier to the next.
-/

namespace ElmReach.ImportGraph

/-- A path of some length leads to a name. It starts from a root and follows imports, and all names
on it are among `names`. -/
inductive PathTo (adjacency : Assoc (List String)) (names roots : List String) :
    Nat → String → Prop where
  | root {name : String} (hroot : name ∈ roots) (hname : name ∈ names) :
    PathTo adjacency names roots 0 name
  | step {length : Nat} {name target : String} (hpath : PathTo adjacency names roots length name)
    (htarget : target ∈ targets adjacency name) (hname : target ∈ names) :
    PathTo adjacency names roots (length + 1) target

variable {adjacency : Assoc (List String)} {fresh frontier roots : List String} {name : String}
  {length depth : Nat}

/-- The fresh names that are on a frontier, and those that are left. A step of the search takes the
former and goes on with the latter. -/
structure Splits (fresh frontier found left : List String) : Prop where
  mem_found : ∀ name, name ∈ found ↔ name ∈ fresh ∧ name ∈ frontier
  mem_left : ∀ name, name ∈ left ↔ name ∈ fresh ∧ name ∉ frontier

/-- What has its depth is not left: the names that had one before, and those that are found now. -/
theorem Splits.notMem_left {found left next : List String} (h : Splits fresh frontier found left)
    (hnext : ∀ name ∈ next, name ∉ fresh) : ∀ name ∈ next ++ found, name ∉ left := by
  intro name hname hleft
  obtain ⟨hfresh, hfrontier⟩ := (h.mem_left name).mp hleft
  rcases List.mem_append.mp hname with hmem | hmem
  · exact hnext name hmem hfresh
  · exact hfrontier ((h.mem_found name).mp hmem).2

/-- Only which names there are matters to a path, and which of them it may start from. -/
theorem PathTo.congr {fresh' frontier' : List String}
    (hfresh : ∀ name, name ∈ fresh → name ∈ fresh')
    (hfrontier : ∀ name ∈ fresh, name ∈ frontier → name ∈ frontier')
    (h : PathTo adjacency fresh frontier length name) :
    PathTo adjacency fresh' frontier' length name := by
  induction h with
  | root hroot hname => exact .root (hfrontier _ hname hroot) (hfresh _ hname)
  | step _ htarget hname ih => exact .step ih htarget (hfresh _ hname)

/-- A path starts from a name on the frontier, so that there is none if the frontier is empty. -/
theorem PathTo.exists_root (h : PathTo adjacency fresh frontier length name) :
    ∃ root, root ∈ frontier := by
  induction h with
  | root hroot _ => exact ⟨_, hroot⟩
  | step _ _ _ ih => exact ih

section Level

variable {found left : List String} (hsplit : Splits fresh frontier found left)

include hsplit

/-- A path leads to the frontier, or a shorter one leads on from there through names that are
left. -/
theorem PathTo.mem_found_or_exists_lt (h : PathTo adjacency fresh frontier length name) :
    name ∈ found ∨ ∃ shorter < length,
      PathTo adjacency left (found.flatMap (targets adjacency)) shorter name := by
  induction h with
  | root hroot hname => exact .inl ((hsplit.mem_found _).mpr ⟨hname, hroot⟩)
  | @step length name target _ htarget hname ih =>
    by_cases hfrontier : target ∈ frontier
    · exact .inl ((hsplit.mem_found _).mpr ⟨hname, hfrontier⟩)
    have hleft : target ∈ left := (hsplit.mem_left _).mpr ⟨hname, hfrontier⟩
    rcases ih with hfound | ⟨shorter, hlt, hpath⟩
    · -- The path was on the frontier just before its last step.
      have hnext : target ∈ found.flatMap (targets adjacency) :=
        List.mem_flatMap.mpr ⟨name, hfound, htarget⟩
      exact .inr ⟨0, by omega, .root hnext hleft⟩
    · exact .inr ⟨shorter + 1, by omega, .step hpath htarget hleft⟩

/-- A path from what the frontier imports is one step longer when it starts from the frontier. -/
theorem PathTo.of_next
    (h : PathTo adjacency left (found.flatMap (targets adjacency)) length name) :
    PathTo adjacency fresh frontier (length + 1) name := by
  induction h with
  | root hroot hname =>
    obtain ⟨before, hbefore, htarget⟩ := List.mem_flatMap.mp hroot
    obtain ⟨hfresh, hfrontier⟩ := (hsplit.mem_found _).mp hbefore
    exact .step (.root hfrontier hfresh) htarget ((hsplit.mem_left _).mp hname).1
  | step _ htarget hname ih => exact .step ih htarget ((hsplit.mem_left _).mp hname).1

end Level

/-- The length of a shortest path to a name, through names that are fresh. There is none if no path
leads to the name. -/
def IsShortest (adjacency : Assoc (List String)) (names roots : List String) (name : String)
    (length : Nat) : Prop :=
  IsLeast {length | PathTo adjacency names roots length name} length

/-- A shortest path to a name on the frontier is empty. A shortest path to any other name is one
step longer than a shortest one from what the frontier imports, through the names that are left. -/
theorem isShortest_iff_of_splits {found left : List String}
    (hsplit : Splits fresh frontier found left) :
    IsShortest adjacency fresh frontier name length ↔ (name ∈ found ∧ length = 0) ∨
      name ∉ found ∧ ∃ shorter, length = shorter + 1 ∧
        IsShortest adjacency left (found.flatMap (targets adjacency)) name shorter := by
  by_cases hname : name ∈ found
  · obtain ⟨hfresh, hfrontier⟩ := (hsplit.mem_found _).mp hname
    have hzero : IsShortest adjacency fresh frontier name 0 :=
      ⟨.root hfrontier hfresh, fun _ _ => Nat.zero_le _⟩
    simp only [hname, true_and, not_true_eq_false, false_and, or_false]
    exact ⟨fun h => h.unique hzero, fun h => h ▸ hzero⟩
  simp only [hname, false_and, not_false_eq_true, true_and, false_or]
  constructor
  · rintro ⟨hpath, hleast⟩
    obtain ⟨shorter, hlt, hshorter⟩ :=
      (PathTo.mem_found_or_exists_lt hsplit hpath).resolve_left hname
    have hle : length ≤ shorter + 1 := hleast (PathTo.of_next hsplit hshorter)
    refine ⟨shorter, by omega, hshorter, fun other hother => ?_⟩
    have hother' : length ≤ other + 1 := hleast (PathTo.of_next hsplit hother)
    omega
  · rintro ⟨shorter, rfl, hpath, hleast⟩
    refine ⟨PathTo.of_next hsplit hpath, fun other hother => ?_⟩
    obtain ⟨less, hlt, hless⟩ := (PathTo.mem_found_or_exists_lt hsplit hother).resolve_left hname
    have hle : shorter ≤ less := hleast hless
    omega

/-- Only which names there are matters to a shortest path, and which of them it may start from. -/
theorem isShortest_congr_names {fresh' frontier' : List String}
    (hfresh : ∀ name, name ∈ fresh ↔ name ∈ fresh')
    (hfrontier : ∀ name ∈ fresh, name ∈ frontier ↔ name ∈ frontier') :
    IsShortest adjacency fresh frontier name length ↔
      IsShortest adjacency fresh' frontier' name length := by
  have hpath (length : Nat) : PathTo adjacency fresh frontier length name ↔
      PathTo adjacency fresh' frontier' length name := by
    refine ⟨PathTo.congr (fun name => (hfresh name).mp) fun name h => (hfrontier name h).mp,
      PathTo.congr (fun name => (hfresh name).mpr) fun name h => ?_⟩
    exact (hfrontier name ((hfresh name).mpr h)).mpr
  simp only [IsShortest, hpath]

section Queue

variable {current next : List String}

/-- The queue while names of one depth are worked off: what is left of them, and behind them the
names that they have led to so far, which are one deeper. -/
def queueOf (depth : Nat) (current next : List String) : Assoc Nat :=
  current.map (fun name => (name, depth)) ++ next.map fun name => (name, depth + 1)

/-- Once the names of one depth are worked off, those behind them are the next ones. -/
theorem queueOf_nil (depth : Nat) (next : List String) :
    queueOf depth [] next = queueOf (depth + 1) next [] := by
  simp [queueOf]

/-- The names that join the queue are the fresh ones among those that are looked at, all with the
same depth. -/
theorem exists_discover_eq (depth : Nat) (fresh names : List String) :
    ∃ found, (discover depth fresh names).1 = found.map (fun name => (name, depth)) ∧
      Splits fresh names found (discover depth fresh names).2 := by
  induction names generalizing fresh with
  | nil => exact ⟨[], rfl, by simp, by simp [discover]⟩
  | cons name rest ih =>
    rw [discover]
    split
    · next hfresh =>
      obtain ⟨found, hfound, hsplit⟩ := ih (fresh.filter (· ≠ name))
      refine ⟨name :: found, by rw [List.map_cons, ← hfound], fun other => ?_, fun other => ?_⟩
      · by_cases hother : other = name
        · simp [hother, hfresh]
        · simp [hsplit.mem_found, hother]
      · rw [hsplit.mem_left]
        simp [and_assoc]
    · next hfresh =>
      obtain ⟨found, hfound, hsplit⟩ := ih fresh
      have hne {other : String} (hother : other ∈ fresh) : other ≠ name :=
        fun heq => hfresh (heq ▸ hother)
      refine ⟨found, hfound, fun other => ?_, fun other => ?_⟩
      · rw [hsplit.mem_found]
        exact and_congr_right fun hother => by simp [hne hother]
      · rw [hsplit.mem_left]
        exact and_congr_right fun hother => by simp [hne hother]

/-- What a queue gives a name: the depth of the names that are worked off, if the name is one of
these, and otherwise the depths behind it, counted along a shortest path from the names that come
next. -/
def Gives (adjacency : Assoc (List String)) (fresh : List String) (depth : Nat)
    (current next : List String) (name : String) (found : Nat) : Prop :=
  (name ∈ current ∧ found = depth) ∨ name ∉ current ∧ ∃ length, found = depth + 1 + length ∧
    IsShortest adjacency (next ++ fresh) (next ++ current.flatMap (targets adjacency)) name length

/-- Going on to the next depth changes nothing in what the queue gives. The names of one depth are
taken from the queue before any of the next one. -/
theorem gives_nil_iff {found : Nat} (hnext : ∀ name ∈ next, name ∉ fresh) :
    Gives adjacency fresh depth [] next name found ↔
      Gives adjacency fresh (depth + 1) next [] name found := by
  have hsplit : Splits (next ++ fresh) (next ++ []) next fresh := by
    refine ⟨fun other => ?_, fun other => ?_⟩
    · simp only [List.append_nil, List.mem_append]
      tauto
    · have hother := hnext other
      simp only [List.append_nil, List.mem_append]
      tauto
  simp only [Gives, List.not_mem_nil, false_and, not_false_eq_true, true_and, false_or,
    List.flatMap_nil, List.nil_append, isShortest_iff_of_splits hsplit]
  constructor
  · rintro ⟨length, rfl, ⟨hname, rfl⟩ | ⟨hname, shorter, rfl, hshorter⟩⟩
    · exact .inl ⟨hname, rfl⟩
    · exact .inr ⟨hname, shorter, by omega, hshorter⟩
  · rintro (⟨hname, rfl⟩ | ⟨hname, shorter, rfl, hshorter⟩)
    · exact ⟨0, rfl, .inl ⟨hname, rfl⟩⟩
    · exact ⟨shorter + 1, by omega, .inr ⟨hname, shorter, rfl, hshorter⟩⟩

/-- Working off one name changes nothing in what the queue gives the others: the fresh names that it
imports are taken to the names that come next. -/
theorem gives_cons_iff {first : String} {joining left : List String} {found : Nat}
    (hname : name ≠ first) (hsplit : Splits fresh (targets adjacency first) joining left) :
    Gives adjacency fresh depth (first :: current) next name found ↔
      Gives adjacency left depth current (next ++ joining) name found := by
  have hshortest (length : Nat) :
      IsShortest adjacency (next ++ fresh)
          (next ++ (first :: current).flatMap (targets adjacency)) name length ↔
        IsShortest adjacency (next ++ joining ++ left)
          (next ++ joining ++ current.flatMap (targets adjacency)) name length := by
    refine isShortest_congr_names (fun other => ?_) fun other hother => ?_
    · simp only [List.mem_append, hsplit.mem_found, hsplit.mem_left]
      tauto
    · simp only [List.mem_append, List.flatMap_cons, hsplit.mem_found] at hother ⊢
      tauto
  simp only [Gives, List.mem_cons, hname, false_or, hshortest]

/-- A queue gives each name the length of a shortest path to it. While it is worked off, it holds
names of one depth and behind them names that are one deeper; so the first path that comes to a name
is a shortest one. -/
theorem get?_traverse_eq_some_iff {queue : Assoc Nat} {found : Nat}
    (hqueue : queue = queueOf depth current next) (hnext : ∀ name ∈ next, name ∉ fresh) :
    (traverse adjacency fresh queue).get? name = some found ↔
      Gives adjacency fresh depth current next name found := by
  fun_induction traverse adjacency fresh queue generalizing depth current next with
  | case1 fresh =>
    obtain ⟨rfl, rfl⟩ : current = [] ∧ next = [] := by simpa [queueOf] using hqueue.symm
    constructor
    · rintro ⟨⟩
    · rintro (⟨hname, -⟩ | ⟨-, length, -, hpath, -⟩)
      · cases hname
      · exact absurd (PathTo.exists_root hpath) (by simp)
  | case2 fresh first depth' rest step =>
    rename_i ih
    -- The first name of the queue is worked off, with the names of its depth behind it.
    have hfirst {current next : List String} (hrest : rest = queueOf depth' current next)
        (hnext : ∀ name ∈ next, name ∉ fresh) :
        (Assoc.get? ((first, depth') :: traverse adjacency step.2 (rest ++ step.1)) name =
          some found) ↔ Gives adjacency fresh depth' (first :: current) next name found := by
      obtain ⟨joining, hjoining, hsplit⟩ : ∃ joining,
          step.1 = joining.map (fun name => (name, depth' + 1)) ∧
            Splits fresh (targets adjacency first) joining step.2 :=
        exists_discover_eq (depth' + 1) fresh (targets adjacency first)
      by_cases hname : name = first
      · simp [Gives, Assoc.get?_cons, hname, eq_comm]
      have hqueue' : rest ++ step.1 = queueOf depth' current (next ++ joining) := by
        simp [hjoining, hrest, queueOf]
      rw [Assoc.get?_cons, if_neg hname, ih hqueue' (hsplit.notMem_left hnext),
        gives_cons_iff hname hsplit]
    cases current with
    | cons head current =>
      obtain ⟨⟨rfl, rfl⟩, rfl⟩ : (first = head ∧ depth' = depth) ∧
          rest = queueOf depth current next := by simpa [queueOf] using hqueue
      exact hfirst rfl hnext
    | nil =>
      rw [queueOf_nil] at hqueue
      cases next with
      | nil => simp [queueOf] at hqueue
      | cons head next =>
        obtain ⟨⟨rfl, rfl⟩, rfl⟩ : (first = head ∧ depth' = depth + 1) ∧
            rest = queueOf (depth + 1) next [] := by simpa [queueOf] using hqueue
        rw [gives_nil_iff hnext]
        exact hfirst rfl (by simp)

end Queue

/-- A name of the graph is reachable if a path leads to it. -/
theorem exists_pathTo_iff_mem_reachable (hname : name ∈ adjacency.names) :
    (∃ length, PathTo adjacency adjacency.names roots length name) ↔
      name ∈ reachable adjacency roots := by
  rw [mem_reachable_iff]
  constructor
  · rintro ⟨length, hpath⟩
    clear hname
    induction hpath with
    | root hroot _ => exact .root hroot
    | step _ htarget hname ih => exact .step ih htarget hname
  · intro hreach
    induction hreach with
    | root hroot => exact ⟨0, .root hroot hname⟩
    | step _ htarget hnode ih =>
      obtain ⟨length, hpath⟩ := ih (mem_names_of_mem_targets htarget)
      exact ⟨length + 1, .step hpath htarget hnode⟩

/-- Among the paths to a name there is a shortest one, which is why a depth exists for what can be
reached at all. -/
theorem exists_isShortest (h : PathTo adjacency fresh frontier length name) :
    ∃ shortest, IsShortest adjacency fresh frontier name shortest := by
  classical
  have hpath : ∃ length, PathTo adjacency fresh frontier length name := ⟨length, h⟩
  exact ⟨Nat.find hpath, Nat.find_spec hpath, fun other hother => Nat.find_min' hpath hother⟩

/-- Only a name without a depth is shown as `-1`, since the text of a depth has no sign. -/
theorem depthText_eq_iff {found : Option Nat} : Report.depthText found = "-1" ↔ found = none := by
  cases found with
  | none => simp [Report.depthText]
  | some depth =>
    simp only [Report.depthText, reduceCtorEq, iff_false]
    intro htext
    have hdash : '-' ∈ (toString depth).toList := by
      rw [htext]
      decide
    rw [Nat.toString_eq_repr, Nat.toList_repr] at hdash
    have hdigit := Nat.isDigit_of_mem_toDigits (by decide) (by decide) hdash
    exact absurd hdigit (by decide)

/-- The depth of a name of the graph is the length of a shortest path to it. The queue takes the
frontiers in order, and a shortest path visits one after the other. -/
theorem exists_get?_depths (roots : List String) (hname : name ∈ adjacency.names) :
    ∃ found, (depths adjacency roots).get? name = some found ∧
      ∀ length, found = some length ↔
        IsShortest adjacency adjacency.names roots name length := by
  obtain ⟨start, hstart, hsplit⟩ := exists_discover_eq 0 adjacency.names roots
  have hqueue : (discover 0 adjacency.names roots).1 = queueOf 0 start [] := by
    simp [hstart, queueOf]
  refine ⟨(traverse adjacency (discover 0 adjacency.names roots).2
    (discover 0 adjacency.names roots).1).get? name, ?_, fun length => ?_⟩
  · rw [depths, Assoc.get?_map, if_pos hname]
  · rw [get?_traverse_eq_some_iff hqueue (by simp), Gives, isShortest_iff_of_splits hsplit]
    simp only [List.nil_append, Nat.zero_add, Nat.add_comm 1]

/-- A path stays one if each name's imports are listed in another order, or more than once. -/
theorem PathTo.of_sameImports {other : Assoc (List String)} (hsame : SameImports adjacency other)
    (h : PathTo adjacency adjacency.names roots length name) :
    PathTo other other.names roots length name := by
  induction h with
  | root hroot hname => exact .root hroot ((hsame.names _).mpr hname)
  | step _ htarget hname ih =>
    exact .step ih ((hsame.targets _ _).mpr htarget) ((hsame.names _).mpr hname)

/-- The least length of a path does not depend on the order of the imports. -/
theorem isShortest_congr {other : Assoc (List String)} (hsame : SameImports adjacency other) :
    IsShortest other other.names roots name length ↔
      IsShortest adjacency adjacency.names roots name length := by
  have hpath (length : Nat) : PathTo other other.names roots length name ↔
      PathTo adjacency adjacency.names roots length name :=
    ⟨.of_sameImports hsame.symm, .of_sameImports hsame⟩
  simp only [IsShortest, hpath]

/-- The names of the graph have their depths, in the order of the graph. The depth of a name is the
length of a shortest path to it from a root of the graph, along imports between names of the graph.
A name to which no such path leads has no depth and is shown with `-1`; these are the names that are
not reachable. In whatever order the imports of the names are listed, the depths are the same. -/
theorem depths_eq_shortest (adjacency : Assoc (List String)) (roots : List String) :
    (depths adjacency roots).names = adjacency.names ∧
      (∀ name ∈ adjacency.names, ∃ found, (depths adjacency roots).get? name = some found ∧
        (∀ length, found = some length ↔
          IsShortest adjacency adjacency.names roots name length) ∧
        (found = none ↔ ∀ length, ¬ PathTo adjacency adjacency.names roots length name) ∧
        (Report.depthText found = "-1" ↔ found = none) ∧
        (found ≠ none ↔ name ∈ reachable adjacency roots)) ∧
      ∀ other, SameImports adjacency other → ∀ name ∈ adjacency.names,
        (depths other roots).get? name = (depths adjacency roots).get? name := by
  refine ⟨by simp [depths, Assoc.names, Function.comp_def], fun name hname => ?_,
    fun other hsame name hname => ?_⟩
  · obtain ⟨found, hget, hshortest⟩ := exists_get?_depths roots hname
    have hnone : found = none ↔
        ∀ length, ¬ PathTo adjacency adjacency.names roots length name := by
      rw [Option.eq_none_iff_forall_ne_some]
      constructor
      · intro h length hpath
        obtain ⟨shortest, hleast⟩ := exists_isShortest hpath
        exact h shortest ((hshortest shortest).mpr hleast)
      · intro h length hfound
        exact h length ((hshortest length).mp hfound).1
    refine ⟨found, hget, hshortest, hnone, depthText_eq_iff, ?_⟩
    rw [← exists_pathTo_iff_mem_reachable hname, ne_eq, hnone]
    push Not
    rfl
  · obtain ⟨found, hget, hshortest⟩ := exists_get?_depths roots hname
    obtain ⟨found', hget', hshortest'⟩ := exists_get?_depths roots <|
      (hsame.names name).mpr hname
    rw [hget, hget', Option.some.injEq]
    exact Option.ext fun length => by rw [hshortest, hshortest', isShortest_congr hsame]

end ElmReach.ImportGraph
