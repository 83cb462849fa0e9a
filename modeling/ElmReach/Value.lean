import ElmReach.Assoc
import ElmReach.Calendar
import ElmReach.Decimal.Binary64
import ElmReach.Text.Quoted

/-!
# Configuration values

The values that settings files, overrides and error details carry. A value has a plain text, in
which a text stands as it is and a date is written as usual, and a quoted text, in which texts are
quoted and dates constructed; inside lists and tables values are always quoted. Integers with very
many digits cannot be written. Whether two values are equal can be computed.
-/

namespace ElmReach

/-- A configuration value. -/
inductive Value where
  | absent
  | flag (value : Bool)
  | int (value : Int)
  | real (value : Binary64)
  | text (value : String)
  | date (value : Date)
  | time (value : ClockTime)
  | moment (value : Moment)
  | list (items : List Value)
  | table (entries : List (String × Value))
  deriving Inhabited, Repr

namespace Value

mutual

/-- The quoted text of a value. -/
def quoted : Value → String
  | .absent => "None"
  | .flag true => "True"
  | .flag false => "False"
  | .int value => toString value
  | .real value => value.render
  | .text value => Text.quoted value
  | .date value => value.constructed
  | .time value => value.constructed
  | .moment value => value.constructed
  | .list items => "[" ++ ", ".intercalate (quotedItems items) ++ "]"
  | .table entries => "\x7b" ++ ", ".intercalate (quotedEntries entries) ++ "\x7d"

/-- The quoted texts of the items of a list. -/
def quotedItems : List Value → List String
  | [] => []
  | item :: rest => item.quoted :: quotedItems rest

/-- The quoted texts of the entries of a table. -/
def quotedEntries : List (String × Value) → List String
  | [] => []
  | (name, value) :: rest => (Text.quoted name ++ ": " ++ value.quoted) :: quotedEntries rest

end

/-- The plain text of a value. -/
def plain : Value → String
  | .text value => value
  | .date value => value.plain
  | .time value => value.plain
  | .moment value => value.plain
  | value => value.quoted

/-- The most digits with which an integer is read or written. -/
def maxIntDigits : Nat := 4300

mutual

/-- Whether all integers of a value can be written. -/
def isWritable : Value → Bool
  | .int value => value.natAbs < Nat.pow 10 maxIntDigits
  | .list items => areWritable items
  | .table entries => entriesAreWritable entries
  | _ => true

/-- Whether all items of a list can be written. -/
def areWritable : List Value → Bool
  | [] => true
  | item :: rest => item.isWritable && areWritable rest

/-- Whether all entries of a table can be written. -/
def entriesAreWritable : List (String × Value) → Bool
  | [] => true
  | (_, value) :: rest => value.isWritable && entriesAreWritable rest

end

/-- Whether a value counts as set when it is used as a switch: it is neither absent nor false nor
zero nor empty. -/
def isSet : Value → Bool
  | .absent => false
  | .flag value => value
  | .int value => value ≠ 0
  | .real value => value.exponentBits ≠ 0 || value.fractionBits ≠ 0
  | .text value => value ≠ ""
  | .date _ => true
  | .time _ => true
  | .moment _ => true
  | .list items => !items.isEmpty
  | .table entries => !entries.isEmpty

mutual

/-- Whether two values are the same, found by comparing their parts. -/
def same : Value → Value → Bool
  | .absent, .absent => true
  | .flag value, .flag other => value = other
  | .int value, .int other => value = other
  | .real value, .real other => value = other
  | .text value, .text other => value = other
  | .date value, .date other => value = other
  | .time value, .time other => value = other
  | .moment value, .moment other => value = other
  | .list items, .list others => sameItems items others
  | .table entries, .table others => sameEntries entries others
  | _, _ => false

/-- Whether two lists have the same items. -/
def sameItems : List Value → List Value → Bool
  | [], [] => true
  | value :: rest, other :: others => value.same other && sameItems rest others
  | _, _ => false

/-- Whether two tables have the same entries, in the same order. -/
def sameEntries : List (String × Value) → List (String × Value) → Bool
  | [], [] => true
  | (name, value) :: rest, (other, otherValue) :: others =>
    name = other && value.same otherValue && sameEntries rest others
  | _, _ => false

end

mutual

/-- Comparing the parts of two values tells whether they are equal. -/
theorem same_iff : (value other : Value) → (value.same other = true ↔ value = other)
  | .absent, other => by cases other <;> simp [same]
  | .flag value, other => by cases other <;> simp [same]
  | .int value, other => by cases other <;> simp [same]
  | .real value, other => by cases other <;> simp [same]
  | .text value, other => by cases other <;> simp [same]
  | .date value, other => by cases other <;> simp [same]
  | .time value, other => by cases other <;> simp [same]
  | .moment value, other => by cases other <;> simp [same]
  | .list items, other => by cases other <;> simp [same, sameItems_iff items]
  | .table entries, other => by cases other <;> simp [same, sameEntries_iff entries]

/-- Comparing the items of two lists tells whether they are equal. -/
theorem sameItems_iff : (items others : List Value) →
    (sameItems items others = true ↔ items = others)
  | [], others => by cases others <;> simp [sameItems]
  | value :: rest, others => by
    cases others <;> simp [sameItems, same_iff value, sameItems_iff rest]

/-- Comparing the entries of two tables tells whether they are equal. -/
theorem sameEntries_iff : (entries others : List (String × Value)) →
    (sameEntries entries others = true ↔ entries = others)
  | [], others => by cases others <;> simp [sameEntries]
  | (name, value) :: rest, others => by
    cases others <;> simp [sameEntries, same_iff value, sameEntries_iff rest, Prod.ext_iff]

end

/-- Values are compared part by part, so that their equality can be computed. -/
instance : DecidableEq Value :=
  fun value other => decidable_of_iff _ (same_iff value other)

end Value

end ElmReach
