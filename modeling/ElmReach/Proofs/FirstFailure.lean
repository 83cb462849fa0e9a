import ElmReach.Proofs.TracedOutcome

/-!
# Where a sequence of steps stops

A sequence of steps fails where its first step fails that does not come to a value. What the steps
before it came to, and what they reported, is kept, since a later step can depend on both.
-/

namespace ElmReach

namespace Results

variable {α β ε : Type} {passes stops : α → Prop} {result : α → Except ε β}

/-- If all failures are the same, it does not matter which item fails. -/
theorem mapM_eq_error_of_same {items : List α} {failure : ε}
    (h : ∀ item ∈ items, result item = .error failure ∨ ∃ value, result item = .ok value)
    (hfails : ∃ item ∈ items, result item = .error failure) :
    items.mapM result = .error failure := by
  rcases all_ok_or_first_error result items with hall | ⟨before, item, after, other, rfl, hbefore,
    hitem⟩
  · obtain ⟨item, hmem, hfailure⟩ := hfails
    obtain ⟨value, hvalue⟩ := hall item hmem
    rw [hvalue] at hfailure
    cases hfailure
  · rw [mapM_eq_error hbefore hitem]
    rcases h item (by simp) with hsame | ⟨value, hvalue⟩
    · exact congrArg Except.error (Except.error.inj (hitem.symm.trans hsame))
    · rw [hvalue] at hitem
      cases hitem

/-- If the list has results, so has every item. None of them has stopped the list. -/
theorem exists_eq_ok_of_mapM {items : List α} {values : List β}
    (h : items.mapM result = .ok values) : ∀ item ∈ items, ∃ value, result item = .ok value := by
  rcases all_ok_or_first_error result items with hall | ⟨before, item, after, failure, rfl, hbefore,
    hitem⟩
  · exact hall
  · rw [mapM_eq_error hbefore hitem] at h
    cases h

/-- If every item has a result, the list has results. -/
theorem exists_mapM_eq_ok {items : List α} (h : ∀ item ∈ items, ∃ value, result item = .ok value) :
    ∃ values, items.mapM result = .ok values := by
  cases hvalues : items.mapM result with
  | ok values => exact ⟨values, rfl⟩
  | error failure =>
    obtain ⟨item, hitem, hfailure⟩ := exists_of_mapM_eq_error hvalues
    obtain ⟨value, hvalue⟩ := h item hitem
    rw [hvalue] at hfailure
    cases hfailure

/-- The result of an item is a result of the list, if the list comes to its results. -/
theorem mem_of_mapM {items : List α} {item : α} {value : β} {values : List β}
    (h : items.mapM result = .ok values) (hitem : item ∈ items)
    (hvalue : result item = .ok value) : value ∈ values := by
  induction items generalizing values with
  | nil => exact absurd hitem List.not_mem_nil
  | cons first rest ih =>
    rw [List.mapM_cons] at h
    obtain ⟨value', hvalue', h⟩ := bind_eq_ok.mp h
    obtain ⟨others, hothers, h⟩ := bind_eq_ok.mp h
    obtain rfl := Except.ok.inj h
    rcases List.mem_cons.mp hitem with rfl | hrest
    · rw [hvalue] at hvalue'
      obtain rfl := Except.ok.inj hvalue'
      exact List.mem_cons_self
    · exact List.mem_cons_of_mem _ (ih hothers hrest)

/-- A changed result is the change of a result. -/
theorem map_eq_ok {ι : Type} {change : α → ι} {outcome : Except ε α} {value : ι} :
    outcome.map change = .ok value ↔ ∃ before, outcome = .ok before ∧ change before = value := by
  cases outcome with
  | error cause => simp [Except.map]
  | ok before => simp [Except.map]

end Results

namespace Traced

variable {α β : Type} {past : List LogRecord} {failure : Failure}

/-- A step that always comes to a value leaves the failure to the next one. -/
theorem HasOutcome.bind_eq_error {first : Traced α} {next : α → Traced β} {value : α}
    (hfirst : first.HasOutcome (.ok value)) :
    ((first >>= next) past).outcome = .error failure ↔
      (next value (past ++ (first past).records)).outcome = .error failure := by
  have hbind : (first >>= next) past = Traced.bind first next past := rfl
  rw [hbind, Traced.bind, hfirst past]

/-- Two steps come to a value through a value of the first one, and report what both report. -/
theorem bind_eq_ok {first : Traced α} {next : α → Traced β} {records : List LogRecord}
    {result : β} :
    (first >>= next) past = { records, outcome := .ok result } ↔
      ∃ value begun ended, first past = { records := begun, outcome := .ok value } ∧
        next value (past ++ begun) = { records := ended, outcome := .ok result } ∧
          records = begun ++ ended := by
  have hbind : (first >>= next) past = Traced.bind first next past := rfl
  rw [hbind, Traced.bind]
  obtain ⟨begun, outcome⟩ := first past
  cases outcome with
  | error cause => simp
  | ok value =>
    constructor
    · intro h
      obtain ⟨rfl, hresult⟩ := Trace.mk.inj h
      exact ⟨value, begun, _, rfl, congrArg (Trace.mk _) hresult, rfl⟩
    · rintro ⟨other, _, ended, hfirst, hnext, rfl⟩
      obtain ⟨rfl, hvalue⟩ := Trace.mk.inj hfirst
      obtain rfl := Except.ok.inj hvalue
      dsimp only
      rw [hnext]

end Traced

end ElmReach
