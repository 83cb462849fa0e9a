import ElmReach.Proofs.OpenedLog
import ElmReach.Proofs.UnusedFiles

/-!
# Two runs of traced computations

Two computations agree if they come to related values or to the same failure, whatever was reported
before each of them. A computation that agrees with itself does not depend on what was reported:
such is reading a source file that the log does not write to.
-/

namespace ElmReach

namespace Traced

variable {α β γ δ : Type}

/-- Two outcomes are related values or the same failure. Two runs are compared by their outcomes,
and not by what they report. -/
def SameOutcome (related : α → β → Prop) : Except Failure α → Except Failure β → Prop
  | .ok value, .ok other => related value other
  | .error failure, .error other => failure = other
  | _, _ => False

/-- The same outcome for two computations is one failure of both, or related values. -/
theorem exists_of_sameOutcome {related : α → β → Prop} {outcome : Except Failure α}
    {outcome' : Except Failure β} (h : SameOutcome related outcome outcome') :
    (∃ failure, outcome = .error failure ∧ outcome' = .error failure) ∨
      ∃ value other, outcome = .ok value ∧ outcome' = .ok other ∧ related value other := by
  cases outcome with
  | error failure =>
    cases outcome' with
    | error failure' => exact .inl ⟨failure, rfl, congrArg Except.error (Eq.symm h)⟩
    | ok other => exact h.elim
  | ok value =>
    cases outcome' with
    | error failure' => exact h.elim
    | ok other => exact .inr ⟨value, other, rfl, rfl, h⟩

/-- Two outcomes have equal values or the same failure only if they are equal. -/
theorem sameOutcome_eq_iff {outcome other : Except Failure α} :
    SameOutcome Eq outcome other ↔ outcome = other := by
  cases outcome <;> cases other <;> simp [SameOutcome]

/-- Two computations come to related values or to the same failure, whatever was reported before
each of them. -/
def Agree (related : α → β → Prop) (first : Traced α) (second : Traced β) : Prop :=
  ∀ past later, SameOutcome related (first past).outcome (second later).outcome

/-- Related values agree. -/
theorem agree_pure {related : α → β → Prop} {value : α} {other : β} (h : related value other) :
    Agree related (pure value) (pure other) :=
  fun _ _ => h

/-- An outcome agrees with itself: if it is a value, this is the value of both. -/
theorem agree_ofOutcome (outcome : Except Failure α) :
    Agree (fun value other => outcome = .ok value ∧ other = value) (ofOutcome outcome)
      (ofOutcome outcome) := by
  intro past later
  cases outcome with
  | error failure => rfl
  | ok value => exact ⟨rfl, rfl⟩

/-- A failure agrees with itself. -/
theorem agree_fail {related : α → β → Prop} (error : Error) :
    Agree related (fail error) (fail error) :=
  fun _ _ => rfl

/-- What is reported does not matter: two reports agree, whatever they say. -/
theorem agree_say (level other : Level) (logger message logger' message' : String) :
    Agree Eq (say level logger message) (say other logger' message') :=
  fun _ _ => rfl

/-- Computations that always come to related values agree. -/
theorem HasOutcome.agree {related : α → β → Prop} {first : Traced α} {second : Traced β} {value : α}
    {other : β} (hfirst : HasOutcome first (.ok value)) (hsecond : HasOutcome second (.ok other))
    (h : related value other) : Agree related first second := by
  intro past later
  rw [hfirst past, hsecond later]
  exact h

/-- Steps that agree, from values that agree, make sequences that agree. So two runs are compared
one step at a time. -/
theorem Agree.bind {related : α → β → Prop} {related' : γ → δ → Prop} {first : Traced α}
    {second : Traced β} {next : α → Traced γ} {next' : β → Traced δ}
    (hfirst : Agree related first second)
    (hnext : ∀ value other, related value other → Agree related' (next value) (next' other)) :
    Agree related' (first >>= next) (second >>= next') := by
  intro past later
  have hleft : (first >>= next) past = Traced.bind first next past := rfl
  have hright : (second >>= next') later = Traced.bind second next' later := rfl
  rw [hleft, hright, Traced.bind, Traced.bind]
  rcases exists_of_sameOutcome (hfirst past later) with
    ⟨failure, hvalue, hother⟩ | ⟨value, other, hvalue, hother, hrelated⟩
  · rw [hvalue, hother]
    rfl
  · rw [hvalue, hother]
    exact hnext value other hrelated _ _

/-- Changing the failures of two computations in the same way keeps them in agreement. -/
theorem Agree.mapFailure {first second : Traced α} (h : Agree Eq first second)
    (change : Failure → Failure) :
    Agree Eq (first.mapFailure change) (second.mapFailure change) := by
  intro past later
  have hsame := sameOutcome_eq_iff.mp (h past later)
  simp only [Traced.mapFailure, hsame]
  exact sameOutcome_eq_iff.mpr rfl

/-- If the steps for each item agree, so do those for all items. -/
theorem agree_forEach {items : List α} {act act' : α → Traced β}
    (h : ∀ item ∈ items, Agree Eq (act item) (act' item)) :
    Agree Eq (forEach items act) (forEach items act') := by
  induction items with
  | nil => exact agree_pure rfl
  | cons item rest ih =>
    obtain ⟨hitem, hrest⟩ := List.forall_mem_cons.mp h
    refine hitem.bind fun first _ hfirst => (ih hrest).bind fun others _ hothers => ?_
    exact agree_pure (by rw [hfirst, hothers])

/-- What agrees with itself has one outcome, whatever was reported before. -/
theorem Agree.hasOutcome {computation : Traced α} (h : Agree Eq computation computation)
    (past : List LogRecord) : HasOutcome computation (computation past).outcome :=
  fun later => sameOutcome_eq_iff.mp (h later past)

/-- Started behind the same records, two computations report the same records and come to related
outcomes. -/
def Mirrors (related : Except Failure α → Except Failure β → Prop) (first : Traced α)
    (second : Traced β) : Prop :=
  ∀ past, (first past).records = (second past).records ∧
    related (first past).outcome (second past).outcome

/-- Steps that mirror each other make sequences that do so, if it does not matter how they fail. -/
theorem Mirrors.bind {related : α → β → Prop} {final : Except Failure γ → Except Failure δ → Prop}
    {first : Traced α} {second : Traced β} {next : α → Traced γ} {next' : β → Traced δ}
    (hfirst : Mirrors (SameOutcome related) first second)
    (hfailure : ∀ failure, final (.error failure) (.error failure))
    (hnext : ∀ value other, related value other → Mirrors final (next value) (next' other)) :
    Mirrors final (first >>= next) (second >>= next') := by
  intro past
  have hleft : (first >>= next) past = Traced.bind first next past := rfl
  have hright : (second >>= next') past = Traced.bind second next' past := rfl
  obtain ⟨hrecords, houtcome⟩ := hfirst past
  rw [hleft, hright, Traced.bind, Traced.bind]
  rcases exists_of_sameOutcome houtcome with
    ⟨failure, hvalue, hother⟩ | ⟨value, other, hvalue, hother, hrelated⟩
  · rw [hvalue, hother]
    exact ⟨hrecords, hfailure failure⟩
  · rw [hvalue, hother, hrecords]
    obtain ⟨hlater, hfinal⟩ := hnext value other hrelated (past ++ (second past).records)
    exact ⟨congrArg _ hlater, hfinal⟩

/-- Behind a step that they share, two computations go on mirroring each other. -/
theorem mirrors_after {final : Except Failure γ → Except Failure δ → Prop} (first : Traced α)
    {next : α → Traced γ} {next' : α → Traced δ}
    (hfailure : ∀ failure, final (.error failure) (.error failure))
    (hnext : ∀ value, Mirrors final (next value) (next' value)) :
    Mirrors final (first >>= next) (first >>= next') := by
  have hfirst : Mirrors (SameOutcome Eq) first first :=
    fun past => ⟨rfl, sameOutcome_eq_iff.mpr rfl⟩
  refine hfirst.bind hfailure fun value other heq => ?_
  exact heq ▸ hnext value

end Traced

namespace SourceText

/-- Reading a source file has one outcome if the log leaves the file alone, and this is the outcome
of reading it from the tree as it is at first. -/
theorem hasOutcome_read {host : Host} {path : String} (h : host.LogLeaves path)
    (encoding : Encoding) :
    (read host encoding path).HasOutcome (ofFile host.tree host.here encoding path) := by
  intro past
  have hfile : ofFile (host.treeAfter past) host.here encoding path =
      ofFile host.tree host.here encoding path := by
    unfold ofFile
    dsimp only
    rw [h past]
  rw [← hfile]
  rfl

end SourceText

namespace SourceModule

variable {host : Host} {path : String}

/-- Making a module of a text agrees with itself, since its outcome does not depend on what was
reported before. -/
theorem agree_ofSummary (path : String) (sourceRoot : Option String) (summary : Summary) :
    Traced.Agree Eq (ofSummary path sourceRoot summary) (ofSummary path sourceRoot summary) := by
  unfold ofSummary
  dsimp only
  split
  · exact Traced.agree_pure rfl
  · split
    · exact fun _ _ => rfl
    · exact (Traced.agree_say _ _ _ _ _ _).bind fun _ _ _ => Traced.agree_pure rfl

/-- A file that the log does not write to is always read as the same module, however much the log
has written by then. -/
theorem agree_read (h : host.LogLeaves path) (encoding : Encoding) (sourceRoot : Option String) :
    Traced.Agree Eq (read host encoding path sourceRoot) (read host encoding path sourceRoot) := by
  have htext : Traced.Agree Eq (SourceText.read host encoding path)
      (SourceText.read host encoding path) := by
    intro past later
    rw [SourceText.hasOutcome_read h encoding past, SourceText.hasOutcome_read h encoding later]
    exact Traced.sameOutcome_eq_iff.mpr rfl
  refine htext.bind fun source _ hsource => ?_
  rw [← hsource]
  refine (SourceText.hasOutcome_summary source).agree (SourceText.hasOutcome_summary source) rfl
    |>.bind fun summary _ hsummary => ?_
  rw [← hsummary]
  exact agree_ofSummary path sourceRoot summary

end SourceModule

namespace Analysis

/-- An analysis depends on its loader only through the project's files. If the loaders agree on
these, the analyses do. -/
theorem agree_run {project : Project} {load load' : Loader}
    (h : ∀ path ∈ project.files, Traced.Agree Eq (load path) (load' path)) :
    Traced.Agree Eq (run project load) (run project load') := by
  refine (Traced.agree_forEach h).bind fun loaded _ hloaded => ?_
  rw [← hloaded]
  have hmodules := hasOutcome_graphModules project loaded
  refine (hmodules.agree hmodules rfl).bind fun modules _ hsame => ?_
  rw [← hsame]
  have hgraph := hasOutcome_build modules
  refine (hgraph.agree hgraph rfl).bind fun graph _ hsame => ?_
  rw [← hsame]
  dsimp only
  split
  · exact Traced.agree_fail _
  · exact (Traced.agree_say _ _ _ _ _ _).bind fun _ _ _ => Traced.agree_pure rfl

end Analysis

end ElmReach
