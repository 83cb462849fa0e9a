import ElmReach.Proofs.MergedTables
import ElmReach.Proofs.TracedOutcome
import ElmReach.Toml.Document
import Mathlib.Tactic.Common

/-!
# The keys of a document

A document never gives a name two values: each statement that extends a table inserts into it, and
a table under construction keeps its names apart at every depth. So the table of a document, and
every table that stands in it under a name, has each name once.
-/

namespace ElmReach.Toml

/-- If the value is a table, each name stands in it once. Of a value of any other kind this says
nothing. -/
def HasKeys (value : Value) : Prop :=
  ∀ entries, value = .table entries → (Assoc.names entries).Nodup

/-- In each table of a part, down to its finished values, each name stands once. This is the
invariant of reading a document. -/
inductive Node.Keyed : Node → Prop where
  | value {value : Value} (hvalue : HasKeys value) : Node.Keyed (.value value)
  | table {origin : Origin} {entries : List (String × Node)}
    (hnames : (Assoc.names entries).Nodup) (hnodes : ∀ entry ∈ entries, Node.Keyed entry.2) :
    Node.Keyed (.table origin entries)
  | tables {finished : List Value} {entries : List (String × Node)}
    (hnames : (Assoc.names entries).Nodup) (hnodes : ∀ entry ∈ entries, Node.Keyed entry.2) :
    Node.Keyed (.tables finished entries)

/-- Each name stands once in the entries, and in each table of their parts. It holds of the empty
document, and each line keeps it. -/
structure Entries.Keyed (entries : Entries) : Prop where
  names : entries.names.Nodup
  nodes : ∀ entry ∈ entries, entry.2.Keyed

/-- The entries of a table have the keys that the table has. -/
theorem Node.Keyed.entries_of_table {origin : Origin} {entries : Entries}
    (h : (Node.table origin entries).Keyed) : entries.Keyed := by
  cases h with
  | table hnames hnodes => exact ⟨hnames, hnodes⟩

/-- The entries of the last table in an array have the keys that the array has. -/
theorem Node.Keyed.entries_of_tables {finished : List Value} {entries : Entries}
    (h : (Node.tables finished entries).Keyed) : entries.Keyed := by
  cases h with
  | tables hnames hnodes => exact ⟨hnames, hnodes⟩

namespace Entries

variable {entries grown : Entries} {name : String} {node : Node}

/-- Without entries there is nothing to check. Every table starts as an empty one. -/
theorem keyed_nil : Keyed [] :=
  ⟨List.nodup_nil, by simp⟩

/-- Inserting an entry keeps the keys different, whether the name is new or its entry is
replaced. -/
theorem Keyed.insert (h : entries.Keyed) (hnode : node.Keyed) (name : String) :
    Keyed (Assoc.insert entries name node) where
  names := Assoc.nodup_names_insert h.names name node
  nodes entry hentry := by
    rcases Assoc.eq_or_mem_of_mem_insert hentry with rfl | hold
    · exact hnode
    · exact h.nodes entry hold

/-- What stands under a name in entries with different keys has different keys as well. -/
theorem Keyed.get? (h : entries.Keyed) (hget : Assoc.get? entries name = some node) : node.Keyed :=
  h.nodes _ (Assoc.mem_of_get? hget)

/-- Entries with different keys make a table with different keys, wherever the table comes from. -/
theorem Keyed.table (h : entries.Keyed) (origin : Origin) : (Node.table origin entries).Keyed :=
  .table h.names h.nodes

/-- Entries with different keys make an array of tables with different keys, behind tables that are
finished. -/
theorem Keyed.tables (h : entries.Keyed) (finished : List Value) :
    (Node.tables finished entries).Keyed :=
  .tables h.names h.nodes

/-- A change that keeps the names apart can be made at the end of any path. -/
theorem Keyed.within {path : List String} {change : Entries → Option Entries}
    (hchange : ∀ {before after : Entries}, before.Keyed → change before = some after → after.Keyed)
    (h : entries.Keyed) (hgrown : within path change entries = some grown) : grown.Keyed := by
  induction path generalizing entries grown with
  | nil => exact hchange h hgrown
  | cons name rest ih =>
    rw [Entries.within] at hgrown
    split at hgrown
    · obtain ⟨inner, hinner, rfl⟩ := Option.map_eq_some_iff.mp hgrown
      exact h.insert ((ih keyed_nil hinner).table .implied) name
    · next origin inner hget =>
      obtain ⟨inner', hinner, rfl⟩ := Option.map_eq_some_iff.mp hgrown
      exact h.insert ((ih (h.get? hget).entries_of_table hinner).table origin) name
    · next finished inner hget =>
      obtain ⟨inner', hinner, rfl⟩ := Option.map_eq_some_iff.mp hgrown
      exact h.insert ((ih (h.get? hget).entries_of_tables hinner).tables finished) name
    · cases hgrown

/-- Declaring a table keeps the keys different: an existing table is entered, and a missing one is
added under a new name. -/
theorem Keyed.declare (h : entries.Keyed) (hgrown : declare name entries = some grown) :
    grown.Keyed := by
  unfold Entries.declare at hgrown
  split at hgrown
  · obtain rfl := Option.some.inj hgrown
    exact h.insert (keyed_nil.table .header) name
  · next inner hget =>
    obtain rfl := Option.some.inj hgrown
    exact h.insert ((h.get? hget).entries_of_table.table .header) name
  · cases hgrown

/-- Declaring the next table of an array keeps the keys different: the table in front of it is
finished, and the new one is empty. -/
theorem Keyed.declareNext (h : entries.Keyed) (hgrown : declareNext name entries = some grown) :
    grown.Keyed := by
  unfold Entries.declareNext at hgrown
  split at hgrown
  · obtain rfl := Option.some.inj hgrown
    exact h.insert (keyed_nil.tables []) name
  · obtain rfl := Option.some.inj hgrown
    exact h.insert (keyed_nil.tables _) name
  · cases hgrown

/-- Assigning a value keeps the keys different all the way down to the table in which the value is
put. -/
theorem Keyed.assign {current : Nat} {parents : List String} {value : Value} (h : entries.Keyed)
    (hvalue : HasKeys value) (hgrown : assign current parents name value entries = some grown) :
    grown.Keyed := by
  induction parents generalizing entries grown with
  | nil =>
    rw [Entries.assign] at hgrown
    split at hgrown
    · cases hgrown
    · obtain rfl := Option.some.inj hgrown
      exact h.insert (.value hvalue) name
  | cons parent rest ih =>
    have hextend {inner : Entries} (hinner : inner.Keyed)
        (hgrown : (Entries.assign current rest name value inner).map
          (fun inner => Assoc.insert entries parent (.table (.dotted current) inner)) =
            some grown) :
        grown.Keyed := by
      obtain ⟨inner', hassign, rfl⟩ := Option.map_eq_some_iff.mp hgrown
      exact h.insert ((ih hinner hassign).table _) parent
    rw [Entries.assign] at hgrown
    split at hgrown
    · exact hextend keyed_nil hgrown
    · next inner hget => exact hextend (h.get? hget).entries_of_table hgrown
    · next former inner hget =>
      split at hgrown
      · exact hextend (h.get? hget).entries_of_table hgrown
      · cases hgrown
    · cases hgrown

end Entries

/-- The names of the entries are the names of their values, in the same order. -/
theorem names_entryValues (entries : List (String × Node)) :
    Assoc.names (entryValues entries) = Assoc.names entries := by
  induction entries with
  | nil => rfl
  | cons entry rest ih =>
    obtain ⟨name, node⟩ := entry
    rw [entryValues, Assoc.names, Assoc.names, List.map_cons, List.map_cons, ← Assoc.names, ih]
    rfl

/-- A value under a name is that of the entry under this name. -/
theorem mem_entryValues {entries : List (String × Node)} {name : String} {value : Value}
    (h : (name, value) ∈ entryValues entries) :
    ∃ node, (name, node) ∈ entries ∧ node.toValue = value := by
  induction entries with
  | nil => simp [entryValues] at h
  | cons entry rest ih =>
    rw [entryValues] at h
    rcases List.mem_cons.mp h with heq | hmem
    · obtain ⟨rfl, rfl⟩ := Prod.mk.inj heq
      exact ⟨entry.2, List.mem_cons_self, rfl⟩
    · obtain ⟨node, hnode, hvalue⟩ := ih hmem
      exact ⟨node, List.mem_cons_of_mem _ hnode, hvalue⟩

/-- Entries with different keys are read as a table with different keys. -/
theorem Entries.Keyed.hasKeys {entries : Entries} (h : entries.Keyed) :
    HasKeys (.table (entryValues entries)) := by
  rintro values ⟨rfl⟩
  rw [names_entryValues]
  exact h.names

/-- An entry with different keys is read as a value with different keys; of an array, this goes for
each of its tables. -/
theorem Node.Keyed.hasKeys_toValue {node : Node} (h : node.Keyed) : HasKeys node.toValue := by
  cases h with
  | value hvalue => rwa [Node.toValue]
  | table hnames hnodes =>
    rw [Node.toValue]
    exact Entries.Keyed.hasKeys ⟨hnames, hnodes⟩
  | tables hnames hnodes =>
    rw [Node.toValue]
    rintro values ⟨⟩

/-- A value that is no table has no names to keep apart. -/
theorem hasKeys_of_ne_table {value : Value} (h : ∀ entries, value ≠ .table entries) :
    HasKeys value :=
  fun entries heq => absurd heq (h entries)

/-- Dates and times have no keys. Only tables and lists can hold some. -/
theorem hasKeys_calendarValue? {text rest : List Char} {value : Value}
    (h : calendarValue? text = some (.ok (value, rest))) : HasKeys value := by
  refine hasKeys_of_ne_table fun entries => ?_
  rintro rfl
  unfold calendarValue? at h
  split at h
  · next date after _ =>
    split at h
    · have hdate := Except.ok.inj (Option.some.inj h)
      unfold behindDate at hdate
      split at hdate
      · cases hdate
      · split at hdate <;> cases hdate
    · cases h
  · obtain ⟨_, -, htime⟩ := Option.map_eq_some_iff.mp h
    cases htime

/-- Numbers have no keys. Only tables and lists can hold some. -/
theorem hasKeys_number? {text rest : List Char} {value : Value}
    (h : number? text = some (.ok (value, rest))) : HasKeys value := by
  refine hasKeys_of_ne_table fun entries => ?_
  rintro rfl
  unfold number? at h
  rcases Option.or_eq_some_iff.mp h with hbased | ⟨-, h⟩
  · obtain ⟨_, -, hint⟩ := Option.map_eq_some_iff.mp hbased
    cases hint
  rcases Option.or_eq_some_iff.mp h with hdecimal | ⟨-, hspecial⟩
  · obtain ⟨_, -, hnumber⟩ := Option.map_eq_some_iff.mp hdecimal
    dsimp only at hnumber
    split at hnumber
    · split at hnumber <;> cases hnumber
    · cases hnumber
  · obtain ⟨found, hfound, hreal⟩ := Option.map_eq_some_iff.mp hspecial
    obtain rfl := Except.ok.inj hreal
    unfold specialNumber? at hfound
    dsimp only at hfound
    split at hfound <;> cases hfound

/-- A value that is neither an array nor an inline table has no keys. -/
theorem hasKeys_readScalar {text rest : List Char} {value : Value}
    (h : readScalar text = .ok (value, rest)) : HasKeys value := by
  unfold readScalar at h
  split at h
  · obtain ⟨rfl, -⟩ := Prod.mk.inj (Except.ok.inj h)
    exact hasKeys_of_ne_table (by simp)
  · obtain ⟨rfl, -⟩ := Prod.mk.inj (Except.ok.inj h)
    exact hasKeys_of_ne_table (by simp)
  · split at h
    · obtain ⟨⟨string, after⟩, -, hstring⟩ := Results.bind_eq_ok.mp h
      obtain ⟨rfl, -⟩ := Prod.mk.inj (Except.ok.inj hstring)
      exact hasKeys_of_ne_table (by simp)
    · next c tail _ _ _ =>
      have hfound : (calendarValue? (c :: tail)).or (number? (c :: tail)) =
          some (.ok (value, rest)) := by
        cases hread : (calendarValue? (c :: tail)).or (number? (c :: tail)) with
        | none => rw [hread] at h; cases h
        | some found => rw [hread] at h; exact congrArg some h
      rcases Option.or_eq_some_iff.mp hfound with hcalendar | ⟨-, hnumber⟩
      · exact hasKeys_calendarValue? hcalendar
      · exact hasKeys_number? hnumber
  · cases h

/-- What is expected and found is there: the text starts with it, and the rest is what follows. -/
theorem eq_some_of_expect {α : Type} {part : Option α} {found : α} (h : expect part = .ok found) :
    part = some found := by
  cases part with
  | none => cases h
  | some other => rw [Except.ok.inj h]

/-- The two readers that build tables keep names apart; values and inline tables are nested in each
other, so both are shown for each depth together. -/
theorem hasKeys_readValue_and_keyed_readPairs (fuel : Nat) :
    (∀ {room : Nat} {text rest : List Char} {value : Value},
      readValue fuel room text = .ok (value, rest) → HasKeys value) ∧
    ∀ {room : Nat} {text rest : List Char} {entries grown : Entries},
      entries.Keyed → readPairs fuel room entries text = .ok (grown, rest) → grown.Keyed := by
  induction fuel with
  | zero =>
    constructor
    · intro room text rest value h
      rw [readValue] at h
      cases h
    · intro room text rest entries grown _ h
      rw [readPairs] at h
      cases h
  | succ fuel ih =>
    obtain ⟨ihValue, ihPairs⟩ := ih
    constructor
    · intro room text rest value h
      rw [readValue.eq_def] at h
      dsimp only at h
      split at h
      · split at h
        · cases h
        · obtain ⟨⟨items, after⟩, -, hlist⟩ := Results.bind_eq_ok.mp h
          obtain ⟨rfl, -⟩ := Prod.mk.inj (Except.ok.inj hlist)
          exact hasKeys_of_ne_table (by simp)
      · split at h
        · cases h
        split at h
        · obtain ⟨rfl, -⟩ := Prod.mk.inj (Except.ok.inj h)
          exact Entries.keyed_nil.hasKeys
        · obtain ⟨⟨entries, after⟩, hpairs, htable⟩ := Results.bind_eq_ok.mp h
          obtain ⟨rfl, -⟩ := Prod.mk.inj (Except.ok.inj htable)
          exact (ihPairs Entries.keyed_nil hpairs).hasKeys
      · exact hasKeys_readScalar h
    · intro room text rest entries grown hentries h
      rw [readPairs.eq_def] at h
      dsimp only at h
      split at h
      · obtain ⟨⟨value, behind⟩, hvalue, h⟩ := Results.bind_eq_ok.mp h
        obtain ⟨longer, hassign, h⟩ := Results.bind_eq_ok.mp h
        have hlonger := hentries.assign (ihValue hvalue) (eq_some_of_expect hassign)
        split at h
        · obtain ⟨rfl, -⟩ := Prod.mk.inj (Except.ok.inj h)
          exact hlonger
        · exact ihPairs hlonger h
        · cases h
      · cases h

namespace Document

variable {document grown : Document} {room : Nat} {text rest : List Char}

/-- An assignment in a document keeps the keys of the document different. -/
theorem keyed_readAssignment (h : document.entries.Keyed)
    (hread : document.readAssignment room text = .ok (grown, rest)) : grown.entries.Keyed := by
  unfold readAssignment at hread
  split at hread
  · obtain ⟨⟨value, behind⟩, hvalue, hread⟩ := Results.bind_eq_ok.mp hread
    obtain ⟨entries, hentries, hread⟩ := Results.bind_eq_ok.mp hread
    obtain ⟨rfl, -⟩ := Prod.mk.inj (Except.ok.inj hread)
    refine h.within (fun hbefore hafter => ?_) (eq_some_of_expect hentries)
    exact hbefore.assign ((hasKeys_readValue_and_keyed_readPairs _).1 hvalue) hafter
  · cases hread

/-- A header in a document keeps the keys of the document different. -/
theorem keyed_header? (h : document.entries.Keyed)
    (hread : document.header? text = some (grown, rest)) : grown.entries.Keyed := by
  unfold header? at hread
  dsimp only at hread
  split at hread
  · cases hread
  · next key behind _ =>
    have hwithin {declare : Entries → Option Entries} {close : List Char}
        (hdeclare : ∀ {before after : Entries}, before.Keyed → declare before = some after →
          after.Keyed)
        (hread : (if close.isPrefixOf behind then
            (document.entries.within key.dropLast declare).map fun entries =>
              (({ entries, header := key, number := document.number + 1 } : Document),
                behind.drop close.length)
          else none) = some (grown, rest)) : grown.entries.Keyed := by
      split at hread
      · obtain ⟨entries, hentries, hdocument⟩ := Option.map_eq_some_iff.mp hread
        obtain ⟨rfl, -⟩ := Prod.mk.inj hdocument
        exact h.within hdeclare hentries
      · cases hread
    refine hwithin (fun hbefore hafter => ?_) hread
    split at hafter
    · exact hbefore.declareNext hafter
    · exact hbefore.declare hafter

/-- A statement of a document is an assignment or a header, so it keeps the keys different. -/
theorem keyed_readStatement (h : document.entries.Keyed)
    (hread : document.readStatement room text = .ok (grown, rest)) : grown.entries.Keyed := by
  unfold readStatement at hread
  split at hread
  · obtain ⟨rfl, -⟩ := Prod.mk.inj (Except.ok.inj hread)
    exact h
  · split at hread
    · exact keyed_readAssignment h hread
    split at hread
    · exact keyed_header? h (eq_some_of_expect hread)
    split at hread
    · obtain ⟨rfl, -⟩ := Prod.mk.inj (Except.ok.inj hread)
      exact h
    · cases hread

/-- Reading line after line keeps the keys of the document different. This is the induction on the
lines, with one lemma for each kind of line. -/
theorem keyed_readLines (h : document.entries.Keyed)
    (hread : document.readLines room text = .ok grown) : grown.entries.Keyed := by
  fun_induction readLines document room text with
  | case1 => cases hread
  | case2 document text next behind hstatement =>
    obtain rfl := Except.ok.inj hread
    exact keyed_readStatement h hstatement
  | case3 document text next behind hstatement rest _ _ ih =>
    exact ih (keyed_readStatement h hstatement) hread
  | case4 => cases hread
  | case5 => cases hread

end Document

/-- The table of a document has each name once, and so has a table that stands in it under a
name. -/
theorem nodup_names_read {room : Nat} {text : List Char} {table : Assoc Value}
    (h : read room text = .ok table) :
    table.names.Nodup ∧ ∀ name fields, table.get? name = some (.table fields) →
      (Assoc.names fields).Nodup := by
  obtain ⟨document, hdocument, htable⟩ := Results.bind_eq_ok.mp h
  obtain rfl := Except.ok.inj htable
  have hkeyed := Document.keyed_readLines Entries.keyed_nil hdocument
  refine ⟨?_, fun name fields hget => ?_⟩
  · rw [names_entryValues]
    exact hkeyed.names
  · obtain ⟨node, hnode, hvalue⟩ := mem_entryValues (Assoc.mem_of_get? hget)
    exact (hkeyed.nodes _ hnode).hasKeys_toValue fields hvalue

end ElmReach.Toml
