import ElmReach.SourceModule
import Mathlib.Tactic.Common

/-!
# Outcomes of traced computations

What a computation comes to is stated apart from the records that it reports. Most computations come
to the same outcome whatever was reported before them, and then the outcome of a sequence of steps
follows from the outcomes of the steps.
-/

namespace ElmReach

namespace Traced

variable {α β : Type}

/-- The computation comes to this outcome, whatever was reported before it. Most computations have
such an outcome; what reads files while the log is written may not. -/
def HasOutcome (computation : Traced α) (outcome : Except Failure α) : Prop :=
  ∀ past, (computation past).outcome = outcome

/-- The outcome of an outcome that reports nothing is this outcome. -/
theorem outcome_ofOutcome (outcome : Except Failure α) (past : List LogRecord) :
    (ofOutcome outcome past).outcome = outcome :=
  rfl

/-- What reports nothing has the same outcome whatever was reported before. -/
theorem hasOutcome_ofOutcome {outcome expected : Except Failure α} (h : outcome = expected) :
    HasOutcome (ofOutcome outcome) expected :=
  fun _ => h

/-- Changing the failure of a computation changes it in its outcome. -/
theorem outcome_mapFailure (change : Failure → Failure) (computation : Traced α)
    (past : List LogRecord) :
    (computation.mapFailure change past).outcome = (computation past).outcome.mapError change :=
  rfl

/-- A value is an outcome, whatever was reported before. -/
theorem hasOutcome_pure (value : α) : HasOutcome (pure value) (.ok value) :=
  fun _ => rfl

/-- A reported error is the outcome of a computation that fails with it. -/
theorem hasOutcome_fail (error : Error) :
    HasOutcome (fail error : Traced α) (.error (.error error)) :=
  fun _ => rfl

/-- Reporting does not fail. -/
theorem hasOutcome_sayAll (records : List LogRecord) : HasOutcome (sayAll records) (.ok ()) :=
  fun _ => rfl

/-- Reporting something does not fail. -/
theorem hasOutcome_say (level : Level) (logger message : String) :
    HasOutcome (say level logger message) (.ok ()) :=
  fun _ => rfl

/-- The outcome of two steps is that of the first one, continued with that of the second one. -/
theorem HasOutcome.bind {first : Traced α} {next : α → Traced β} {outcome : Except Failure α}
    {continued : α → Except Failure β} (hfirst : HasOutcome first outcome)
    (hnext : ∀ value, HasOutcome (next value) (continued value)) :
    HasOutcome (first >>= next) (outcome >>= continued) := by
  intro past
  have hbind : (first >>= next) past = Traced.bind first next past := rfl
  rw [hbind, Traced.bind, hfirst past]
  cases outcome with
  | error failure => rfl
  | ok value => exact hnext value _

/-- A step that reports and cannot fail leaves the outcome to the next one. -/
theorem HasOutcome.after {first : Traced α} {next : α → Traced β} {value : α}
    {outcome : Except Failure β} (hfirst : HasOutcome first (.ok value))
    (hnext : HasOutcome (next value) outcome) : HasOutcome (first >>= next) outcome := by
  intro past
  have hbind : (first >>= next) past = Traced.bind first next past := rfl
  rw [hbind, Traced.bind, hfirst past]
  exact hnext _

/-- A step that fails leaves nothing to the next one. -/
theorem HasOutcome.stop {first : Traced α} {failure : Failure}
    (hfirst : HasOutcome first (.error failure)) (next : α → Traced β) :
    HasOutcome (first >>= next) (.error failure) := by
  intro past
  have hbind : (first >>= next) past = Traced.bind first next past := rfl
  rw [hbind, Traced.bind, hfirst past]

/-- A sequence of steps comes to a value only through a value of its first step. -/
theorem outcome_bind_eq_ok {first : Traced α} {next : α → Traced β} {past : List LogRecord}
    {value : β} (h : ((first >>= next) past).outcome = .ok value) :
    ∃ middle later,
      (first past).outcome = .ok middle ∧ (next middle later).outcome = .ok value := by
  have hbind : (first >>= next) past = Traced.bind first next past := rfl
  rw [hbind, Traced.bind] at h
  cases hfirst : (first past).outcome with
  | error failure =>
    rw [hfirst] at h
    cases h
  | ok middle =>
    rw [hfirst] at h
    exact ⟨middle, _, rfl, h⟩

/-- The outcome for all items: their results in order, or the first failure. What is reported for
one item does not change those behind it. -/
theorem hasOutcome_forEach {act : α → Traced β} {result : α → Except Failure β}
    (hact : ∀ item, HasOutcome (act item) (result item)) (items : List α) :
    HasOutcome (forEach items act) (items.mapM result) := by
  induction items with
  | nil => exact hasOutcome_pure []
  | cons item rest ih =>
    rw [forEach, List.mapM_cons]
    exact (hact item).bind fun first => ih.bind fun others => hasOutcome_pure (first :: others)

end Traced

namespace Results

variable {α β ε : Type} {result : α → Except ε β}

/-- Two steps have a result if the first one has one and the second one has one from there. -/
theorem bind_eq_ok {first : Except ε α} {value : β} :
    (first >>= result) = .ok value ↔ ∃ middle, first = .ok middle ∧ result middle = .ok value := by
  cases first with
  | error failure =>
    constructor
    · rintro ⟨⟩
    · rintro ⟨middle, ⟨⟩, -⟩
  | ok middle =>
    constructor
    · exact fun h => ⟨middle, rfl, h⟩
    · rintro ⟨other, ⟨rfl⟩, h⟩
      exact h

/-- Two steps fail if the first one fails, or if the second one fails from its result. -/
theorem bind_eq_error {first : Except ε α} {failure : ε} :
    (first >>= result) = .error failure ↔
      first = .error failure ∨ ∃ middle, first = .ok middle ∧ result middle = .error failure := by
  cases first with
  | error other =>
    constructor
    · rintro ⟨⟩
      exact .inl rfl
    · rintro (⟨⟨⟩⟩ | ⟨middle, ⟨⟩, -⟩)
      rfl
  | ok middle =>
    constructor
    · exact fun h => .inr ⟨middle, rfl, h⟩
    · rintro (⟨⟨⟩⟩ | ⟨other, ⟨rfl⟩, h⟩)
      exact h

/-- Changing a failure changes no result. -/
theorem mapError_eq_ok {ι : Type} {change : ε → ι} {outcome : Except ε α} {value : α} :
    outcome.mapError change = .ok value ↔ outcome = .ok value := by
  cases outcome with
  | error failure => simp [Except.mapError]
  | ok other => simp [Except.mapError]

/-- If every item has a result, so has the list: the results of its items, in order. -/
theorem mapM_eq_ok {value : α → β} {items : List α}
    (h : ∀ item ∈ items, result item = .ok (value item)) :
    items.mapM result = .ok (items.map value) := by
  induction items with
  | nil => rfl
  | cons item rest ih =>
    rw [List.mapM_cons, h item List.mem_cons_self,
      ih fun other hother => h other (List.mem_cons_of_mem item hother)]
    rfl

/-- The first failure is the failure of the list, whatever the later items come to. -/
theorem mapM_eq_error {before after : List α} {item : α} {failure : ε}
    (hbefore : ∀ earlier ∈ before, ∃ value, result earlier = .ok value)
    (hitem : result item = .error failure) :
    (before ++ item :: after).mapM result = .error failure := by
  induction before with
  | nil =>
    rw [List.nil_append, List.mapM_cons, hitem]
    rfl
  | cons first before ih =>
    obtain ⟨value, hvalue⟩ := hbefore first List.mem_cons_self
    rw [List.cons_append, List.mapM_cons, hvalue,
      ih fun earlier hearlier => hbefore earlier (List.mem_cons_of_mem first hearlier)]
    rfl

/-- A result of the list is the result of an item. Nothing else comes into the list. -/
theorem exists_of_mem_mapM {items : List α} {values : List β} {value : β}
    (h : items.mapM result = .ok values) (hvalue : value ∈ values) :
    ∃ item ∈ items, result item = .ok value := by
  induction items generalizing values with
  | nil =>
    rw [← Except.ok.inj h] at hvalue
    exact absurd hvalue List.not_mem_nil
  | cons item rest ih =>
    rw [List.mapM_cons] at h
    obtain ⟨first, hfirst, h⟩ := bind_eq_ok.mp h
    obtain ⟨others, hothers, h⟩ := bind_eq_ok.mp h
    rw [← Except.ok.inj h] at hvalue
    rcases List.mem_cons.mp hvalue with rfl | hmem
    · exact ⟨item, List.mem_cons_self, hfirst⟩
    · obtain ⟨other, hother, hresult⟩ := ih hothers hmem
      exact ⟨other, List.mem_cons_of_mem _ hother, hresult⟩

/-- A failure of the list is the failure of an item. -/
theorem exists_of_mapM_eq_error {items : List α} {failure : ε}
    (h : items.mapM result = .error failure) : ∃ item ∈ items, result item = .error failure := by
  induction items with
  | nil => cases h
  | cons item rest ih =>
    rw [List.mapM_cons] at h
    obtain hitem | ⟨first, -, h⟩ := bind_eq_error.mp h
    · exact ⟨item, List.mem_cons_self, hitem⟩
    · obtain hrest | ⟨others, -, h⟩ := bind_eq_error.mp h
      · obtain ⟨other, hother, hresult⟩ := ih hrest
        exact ⟨other, List.mem_cons_of_mem _ hother, hresult⟩
      · cases h

/-- If each item passes or fails a test without an error, testing the items one after the other
keeps those that pass. -/
theorem filterM_eq_ok {test : α → Except ε Bool} {keep : α → Bool} {items : List α}
    (h : ∀ item ∈ items, test item = .ok (keep item)) :
    items.filterM test = .ok (items.filter keep) := by
  have haux (kept : List α) :
      items.filterAuxM test kept = .ok ((items.filter keep).reverse ++ kept) := by
    induction items generalizing kept with
    | nil => rfl
    | cons item rest ih =>
      obtain ⟨hitem, hrest⟩ := List.forall_mem_cons.mp h
      rw [List.filterAuxM, hitem]
      change rest.filterAuxM test (bif keep item then item :: kept else kept) = _
      rw [ih hrest, List.filter_cons]
      cases keep item <;> simp
  rw [List.filterM, haux []]
  simp [bind, Except.bind, pure, Except.pure]

/-- If all failures are the same, it does not matter which item fails. -/
theorem filterM_eq_error {test : α → Except ε Bool} {items : List α} {failure : ε}
    (h : ∀ item ∈ items, test item = .error failure ∨ ∃ answer, test item = .ok answer)
    (hfails : ∃ item ∈ items, test item = .error failure) :
    items.filterM test = .error failure := by
  have haux (kept : List α) : items.filterAuxM test kept = .error failure := by
    induction items generalizing kept with
    | nil => simp at hfails
    | cons item rest ih =>
      obtain ⟨hitem, hrest⟩ := List.forall_mem_cons.mp h
      rw [List.filterAuxM]
      rcases hitem with hitem | ⟨answer, hitem⟩
      · rw [hitem]
        rfl
      · rw [hitem]
        refine ih hrest ?_ _
        obtain ⟨other, hother, hfailure⟩ := hfails
        rcases List.mem_cons.mp hother with rfl | hmem
        · rw [hitem] at hfailure
          cases hfailure
        · exact ⟨other, hmem, hfailure⟩
  rw [List.filterM, haux []]
  rfl

/-- Either every item has a result, or there is a first one that fails, with results for all items
in front of it. -/
theorem all_ok_or_first_error (result : α → Except ε β) (items : List α) :
    (∀ item ∈ items, ∃ value, result item = .ok value) ∨
      ∃ before item after failure, items = before ++ item :: after ∧
        (∀ earlier ∈ before, ∃ value, result earlier = .ok value) ∧
          result item = .error failure := by
  induction items with
  | nil => exact .inl (by simp)
  | cons first rest ih =>
    cases hfirst : result first with
    | error failure => exact .inr ⟨[], first, rest, failure, rfl, by simp, hfirst⟩
    | ok value =>
      have hcons {others : List α} (h : ∀ item ∈ others, ∃ value, result item = .ok value) :
          ∀ item ∈ first :: others, ∃ value, result item = .ok value := by
        intro item hitem
        rcases List.mem_cons.mp hitem with rfl | hitem
        · exact ⟨value, hfirst⟩
        · exact h item hitem
      rcases ih with hall | ⟨before, item, after, failure, rfl, hbefore, hitem⟩
      · exact .inl (hcons hall)
      · exact .inr ⟨first :: before, item, after, failure, rfl, hcons hbefore, hitem⟩

end Results

/-- A file that follows its encoding is read without the blanks at its ends. -/
theorem SourceText.ofFile_eq_ok {tree : FileTree} {here : Place} {encoding : Encoding}
    {path : String} {bytes : List UInt8} {decoded : List Char}
    (hfile : tree.file? here (Path.tidy path) = .ok (some bytes))
    (hdecode : encoding.decode bytes = .ok decoded) :
    ofFile tree here encoding path =
      .ok { path := Path.tidy path, content := Text.trim (Encoding.uniformLines decoded) } := by
  unfold ofFile
  dsimp only
  rw [hfile]
  dsimp only
  rw [hdecode]

/-- Reporting on a source text does not change its summary. -/
theorem SourceText.hasOutcome_summary (source : SourceText) :
    source.summary.HasOutcome (.ok (Summary.ofContent source.content)) :=
  (Traced.hasOutcome_sayAll _).after (Traced.hasOutcome_pure _)

end ElmReach
