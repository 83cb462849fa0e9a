import ElmReach.Value

/-!
# Tables under construction

A TOML document builds one table, statement by statement. While it grows, each table in it keeps
how it came to be, because that decides which later statements may extend it: a table that a header
declared is declared once, a table that dotted keys created can be extended by dotted keys of the
same section only, and inline tables and arrays are closed.
-/

namespace ElmReach.Toml

/-- How a table came to be. -/
inductive Origin where
  /-- A longer header runs through it. -/
  | implied
  /-- A header declares it. -/
  | header
  /-- Dotted keys of the section of this number create it. -/
  | dotted (number : Nat)
  deriving DecidableEq, Repr

/-- A part of a table under construction. -/
inductive Node where
  /-- A finished value. -/
  | value (value : Value)
  /-- A table. -/
  | table (origin : Origin) (entries : List (String × Node))
  /-- An array of tables: the finished ones, and the one that is being built. -/
  | tables (finished : List Value) (entries : List (String × Node))

/-- The entries of a table under construction. -/
abbrev Entries := Assoc Node

mutual

/-- The value that a part has become. -/
def Node.toValue : Node → Value
  | .value value => value
  | .table _ entries => .table (entryValues entries)
  | .tables finished entries => .list (finished ++ [.table (entryValues entries)])

/-- The values that the entries of a table have become. -/
def entryValues : List (String × Node) → List (String × Value)
  | [] => []
  | (name, node) :: rest => (name, node.toValue) :: entryValues rest

end

namespace Entries

/-- Change the table at the end of a path. Tables that are missing are created, and an array of
tables stands for its last one. There is no way through a finished value. -/
def within (path : List String) (change : Entries → Option Entries) (entries : Entries) :
    Option Entries :=
  match path with
  | [] => change entries
  | name :: rest =>
    match entries.get? name with
    | none => (within rest change []).map fun inner => entries.insert name (.table .implied inner)
    | some (.table origin inner) =>
      (within rest change inner).map fun inner => entries.insert name (.table origin inner)
    | some (.tables finished inner) =>
      (within rest change inner).map fun inner => entries.insert name (.tables finished inner)
    | some (.value _) => none

/-- Declare a table by a header. -/
def declare (name : String) (entries : Entries) : Option Entries :=
  match entries.get? name with
  | none => some (entries.insert name (.table .header []))
  | some (.table .implied inner) => some (entries.insert name (.table .header inner))
  | some _ => none

/-- Start the next table of an array of tables. -/
def declareNext (name : String) (entries : Entries) : Option Entries :=
  match entries.get? name with
  | none => some (entries.insert name (.tables [] []))
  | some (.tables finished inner) =>
    some (entries.insert name (.tables (finished ++ [.table (entryValues inner)]) []))
  | some _ => none

/-- Give a dotted key a value in the section of number `current`. -/
def assign (current : Nat) (parents : List String) (name : String) (value : Value)
    (entries : Entries) : Option Entries :=
  match parents with
  | [] => if (entries.get? name).isSome then none else some (entries.insert name (.value value))
  | parent :: rest =>
    let extend (inner : Entries) : Option Entries :=
      (assign current rest name value inner).map fun inner =>
        entries.insert parent (.table (.dotted current) inner)
    match entries.get? parent with
    | none => extend []
    | some (.table .implied inner) => extend inner
    | some (.table (.dotted former) inner) => if former = current then extend inner else none
    | some _ => none

end Entries

end ElmReach.Toml
