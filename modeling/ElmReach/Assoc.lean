/-!
# Tables in order of insertion

A table maps names to values. Its entries stay in the order in which their names were first
inserted: a later value takes the place of an earlier one.
-/

namespace ElmReach

/-- A table from names to values, in order of insertion. -/
abbrev Assoc (α : Type) := List (String × α)

namespace Assoc

variable {α : Type}

/-- The value of a name. -/
def get? (table : Assoc α) (name : String) : Option α :=
  List.lookup name table

/-- Give a name a value. A name that the table has keeps its place. -/
def insert (table : Assoc α) (name : String) (value : α) : Assoc α :=
  match table with
  | [] => [(name, value)]
  | (key, old) :: rest =>
    if key = name then (key, value) :: rest else (key, old) :: insert rest name value

/-- The names of a table. -/
def names (table : Assoc α) : List String :=
  table.map Prod.fst

/-- The inserted name has its value, all others keep theirs. -/
theorem get?_insert (table : Assoc α) (name key : String) (value : α) :
    (insert table name value).get? key = if key = name then some value else table.get? key := by
  induction table with
  | nil =>
    by_cases hkey : key = name
    · simp [insert, get?, hkey]
    · simp [insert, get?, List.lookup_cons, beq_eq_false_iff_ne.mpr hkey, hkey]
  | cons entry rest ih =>
    obtain ⟨first, old⟩ := entry
    unfold get? at ih
    by_cases hkey : key = first
    · subst hkey
      by_cases hname : key = name <;> simp [insert, get?, hname]
    · have hbeq : (key == first) = false := beq_eq_false_iff_ne.mpr hkey
      by_cases hname : first = name
      · subst hname
        simp [insert, get?, List.lookup_cons, hbeq, hkey]
      · simp [insert, get?, List.lookup_cons, hbeq, hname, ih]

/-- A new name comes last, and the others keep their places. -/
theorem names_insert (table : Assoc α) (name : String) (value : α) :
    (insert table name value).names =
      if name ∈ table.names then table.names else table.names ++ [name] := by
  induction table with
  | nil => simp [insert, names]
  | cons entry rest ih =>
    obtain ⟨first, old⟩ := entry
    unfold names at ih
    by_cases hfirst : first = name
    · simp [insert, names, hfirst]
    · have hname : name ≠ first := fun h => hfirst h.symm
      by_cases hmem : name ∈ rest.map Prod.fst <;>
        simp_all [insert, names]

/-- Insert the entries of `upper` one after the other. -/
def merge (table upper : Assoc α) : Assoc α :=
  upper.foldl (fun merged entry => insert merged entry.1 entry.2) table

/-- The table of some entries, of which a later one replaces an earlier one of the same name. -/
def ofEntries (entries : List (String × α)) : Assoc α :=
  merge [] entries

end Assoc

end ElmReach
