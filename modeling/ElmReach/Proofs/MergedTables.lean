import ElmReach.Assoc
import Mathlib.Data.List.Nodup
import Mathlib.Tactic.Common

/-!
# Merged tables

A table in which each name stands once is determined by the values of its names. Merging keeps this
property, and a merged table gives a name the value of the upper table if that has one, and the
value of the lower table otherwise.
-/

namespace ElmReach.Assoc

variable {α : Type} {table upper : Assoc α} {name key : String} {value : α}

/-- What a table gives for a name is one of its entries. -/
theorem mem_of_get? (h : table.get? name = some value) : (name, value) ∈ table := by
  obtain ⟨front, rest, rfl, -⟩ := List.lookup_eq_some_iff.mp h
  simp

/-- The first entry of a table hides the others of the same name. -/
theorem get?_cons (first : String) (table : Assoc α) :
    get? ((first, value) :: table) name = if name = first then some value else table.get? name := by
  by_cases hname : name = first
  · simp [get?, hname]
  · simp [get?, List.lookup_cons, beq_eq_false_iff_ne.mpr hname, hname]

/-- A table gives a value for the names that it has, and for no others. -/
theorem isSome_get?_iff : (table.get? name).isSome ↔ name ∈ table.names := by
  induction table with
  | nil => simp [get?, names]
  | cons entry rest ih =>
    obtain ⟨first, old⟩ := entry
    rw [get?_cons, names, List.map_cons, List.mem_cons, ← names]
    by_cases hname : name = first
    · simp [hname]
    · simp [hname, ih]

/-- A table gives nothing for a name exactly if it does not have the name. -/
theorem get?_eq_none_iff : table.get? name = none ↔ name ∉ table.names := by
  rw [← isSome_get?_iff, Bool.not_eq_true, Option.isSome_eq_false_iff, Option.isNone_iff_eq_none]

/-- An entry gives its name its value if no other entry has the name. -/
theorem get?_eq_some_of_mem (hnames : table.names.Nodup) (h : (name, value) ∈ table) :
    table.get? name = some value := by
  induction table with
  | nil => simp at h
  | cons entry rest ih =>
    obtain ⟨first, old⟩ := entry
    obtain ⟨hfirst, hrest⟩ := List.nodup_cons.mp hnames
    rw [get?_cons]
    rcases List.mem_cons.mp h with heq | hmem
    · obtain ⟨rfl, rfl⟩ := Prod.mk.inj heq
      exact if_pos rfl
    · have hne : name ≠ first := by
        rintro rfl
        exact hfirst (List.mem_map.mpr ⟨_, hmem, rfl⟩)
      rw [if_neg hne]
      exact ih hrest hmem

/-- Leaving entries out leaves the values of the other entries. -/
theorem get?_filter (keep : String × α → Bool) (hnames : table.names.Nodup) :
    get? (table.filter keep) name = (table.get? name).filter fun value => keep (name, value) := by
  induction table with
  | nil => rfl
  | cons entry rest ih =>
    obtain ⟨first, old⟩ := entry
    obtain ⟨hfirst, hrest⟩ := List.nodup_cons.mp hnames
    by_cases hname : name = first
    · subst hname
      have hnone : get? (rest.filter keep) name = none := by
        rw [ih hrest, get?_eq_none_iff.mpr hfirst]
        rfl
      by_cases hkeep : keep (name, old) = true
      · simp [hkeep, get?_cons, Option.filter]
      · simp [hkeep, get?_cons, Option.filter, hnone]
    · by_cases hkeep : keep (first, old) = true
      · simp [hkeep, get?_cons, hname, ih hrest]
      · simp [hkeep, get?_cons, hname, ih hrest]

/-- Leaving a name out of a table changes nothing for the other names. -/
theorem get?_filter_ne (table : Assoc α) (dropped : String) :
    get? (table.filter (·.1 ≠ dropped)) name =
      if name = dropped then none else table.get? name := by
  induction table with
  | nil => simp [get?]
  | cons entry rest ih =>
    obtain ⟨first, old⟩ := entry
    rw [List.filter_cons, get?_cons]
    by_cases hfirst : first = dropped
    · rw [if_neg (by simpa using hfirst), ih]
      by_cases hname : name = dropped
      · rw [if_pos hname, if_pos hname]
      · rw [if_neg hname, if_neg hname, if_neg fun h => hname (h.trans hfirst)]
    · rw [if_pos (by simpa using hfirst), get?_cons, ih]
      by_cases hname : name = first
      · rw [if_pos hname, if_neg fun h => hfirst (hname.symm.trans h), if_pos hname]
      · rw [if_neg hname, if_neg hname]

/-- Leaving entries out of a table keeps its names different. -/
theorem nodup_names_filter (keep : String × α → Bool) (hnames : table.names.Nodup) :
    (names (table.filter keep)).Nodup :=
  List.Nodup.sublist (List.filter_sublist.map Prod.fst) hnames

/-- The table of some names, of which only those with a value are listed. -/
theorem get?_filterMap (values : String → Option α) (keys : List String) (name : String) :
    get? (keys.filterMap fun key => (values key).map (key, ·)) name =
      if name ∈ keys then values name else none := by
  induction keys with
  | nil => rfl
  | cons key rest ih =>
    by_cases hname : name = key
    · subst hname
      cases hvalue : values name with
      | none => simp [hvalue, ih]
      | some found => simp [hvalue, get?_cons]
    · cases hvalue : values key with
      | none => simp [hvalue, ih, hname]
      | some found => simp [hvalue, ih, hname, get?_cons]

/-- The table that gives each of some names a value. -/
theorem get?_map (value : String → α) (keys : List String) (name : String) :
    get? (keys.map fun key => (key, value key)) name =
      if name ∈ keys then some (value name) else none := by
  have hmap : keys.map (fun key => (key, value key)) =
      keys.filterMap fun key => (some (value key)).map (key, ·) := by
    simp [List.filterMap_eq_map']
  rw [hmap, get?_filterMap]

/-- A table that is made from different keys has different names. -/
theorem nodup_names_filterMap (values : String → Option α) {keys : List String}
    (hkeys : keys.Nodup) : (names (keys.filterMap fun key => (values key).map (key, ·))).Nodup := by
  have hsublist : (names (keys.filterMap fun key => (values key).map (key, ·))).Sublist keys := by
    induction keys with
    | nil => exact List.Sublist.refl _
    | cons key rest ih =>
      have hrest := ih (List.nodup_cons.mp hkeys).2
      cases hvalue : values key with
      | none => simpa [hvalue] using hrest.cons key
      | some found => simpa [hvalue, names] using hrest.cons_cons key
  exact hkeys.sublist hsublist

/-- An entry of a table, after a value was put in, is the one put in or stood there before. -/
theorem eq_or_mem_of_mem_insert {entry : String × α} (h : entry ∈ table.insert name value) :
    entry = (name, value) ∨ entry ∈ table := by
  induction table with
  | nil => exact .inl (List.mem_singleton.mp h)
  | cons first rest ih =>
    rw [insert] at h
    split at h
    next hfirst =>
      rcases List.mem_cons.mp h with rfl | hmem
      · exact .inl (by rw [hfirst])
      · exact .inr (List.mem_cons_of_mem _ hmem)
    next hfirst =>
      rcases List.mem_cons.mp h with rfl | hmem
      · exact .inr List.mem_cons_self
      · exact (ih hmem).imp_right (List.mem_cons_of_mem _)

/-- Putting a value into a table keeps its names different: a name that is known keeps its entry,
with another value. -/
theorem nodup_names_insert (hnames : table.names.Nodup) (name : String) (value : α) :
    (table.insert name value).names.Nodup := by
  rw [names_insert]
  split
  next => exact hnames
  next hname =>
    refine List.nodup_append.mpr ⟨hnames, List.nodup_singleton name, ?_⟩
    rintro old hold new hnew rfl
    exact hname (List.mem_singleton.mp hnew ▸ hold)

/-- A merged table gives a name the value of the upper table, or else that of the lower one. -/
theorem get?_merge (table : Assoc α) (hupper : upper.names.Nodup) :
    (table.merge upper).get? key = (upper.get? key).or (table.get? key) := by
  induction upper generalizing table with
  | nil => simp [merge, get?]
  | cons entry rest ih =>
    obtain ⟨first, value⟩ := entry
    obtain ⟨hfirst, hrest⟩ := List.nodup_cons.mp hupper
    have hmerge : table.merge ((first, value) :: rest) =
        (table.insert first value).merge rest := rfl
    rw [hmerge, ih _ hrest, get?_insert, get?_cons]
    by_cases hkey : key = first
    · subst hkey
      rw [get?_eq_none_iff.mpr hfirst]
      simp
    · simp [hkey]

/-- A value of a new name is put at the end of the table. -/
theorem insert_of_notMem (h : name ∉ table.names) :
    table.insert name value = table ++ [(name, value)] := by
  induction table with
  | nil => rfl
  | cons entry rest ih =>
    obtain ⟨first, old⟩ := entry
    have hfirst : name ≠ first := List.ne_of_not_mem_cons h
    have hrest : name ∉ names rest := List.not_mem_of_not_mem_cons h
    rw [insert, if_neg hfirst.symm, ih hrest, List.cons_append]

/-- Entries with new names are added at the end, in order. -/
theorem merge_of_nodup (h : (names (table ++ upper)).Nodup) :
    table.merge upper = table ++ upper := by
  induction upper generalizing table with
  | nil => exact (List.append_nil table).symm
  | cons entry rest ih =>
    obtain ⟨first, value⟩ := entry
    have hmerge : table.merge ((first, value) :: rest) =
        (table.insert first value).merge rest := rfl
    have hsplit : table ++ (first, value) :: rest = (table ++ [(first, value)]) ++ rest := by simp
    have hfirst : first ∉ table.names := by
      intro hmem
      rw [names, List.map_append, List.nodup_append] at h
      exact h.2.2 first hmem first (by simp) rfl
    rw [hmerge, insert_of_notMem hfirst, hsplit, ih (hsplit ▸ h)]

/-- Entries with different names are the table that they make. -/
theorem ofEntries_eq_self {entries : List (String × α)} (h : (names entries).Nodup) :
    ofEntries entries = entries :=
  merge_of_nodup h

end ElmReach.Assoc
