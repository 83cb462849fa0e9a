import ElmReach.Proofs.FirstFailure
import ElmReach.Proofs.SettingsCheck

/-!
# Faults of checking settings

A table of settings is refused with a report, except in three cases: its first value of the wrong
type cannot be written, or everything is right up to the name of the encoding, which cannot be
looked up, or with which the registry fails.
-/

namespace ElmReach.Settings

variable {codecs : Codecs} {fields : Assoc Value} {name : String} {fault : Fault}

/-- The type that the value of a setting must have. It says less than what the setting admits, as
most texts are no names of an encoding. -/
def HasType (name : String) (value : Value) : Prop :=
  match name with
  | "follow_symlinks" => ∃ follow, value = .flag follow
  | "log_file" => value = .absent ∨ ∃ file, value = .text file
  | _ => ∃ text, value = .text text

/-- The value of the setting, if there is one, has the right type. A setting without a value has its
default one, whose type is right. -/
def IsTyped (values : String → Option Value) (name : String) : Prop :=
  ∀ value, values name = some value → HasType name value

/-- The setting has a value of the wrong type, which is an integer with more digits than are
written, or holds one. -/
def IsUnwritable (values : String → Option Value) (name : String) : Prop :=
  ∃ value, values name = some value ∧ ¬ HasType name value ∧ value.isWritable = false

/-- A step looks at the type of a setting's value: it has a result if the type is right, and ends
with a fault if the value cannot be written either. -/
structure ChecksType {α : Type} (fields : Assoc Value) (name : String)
    (outcome : Except Failure α) : Prop where
  ok_iff : (∃ value, outcome = .ok value) ↔ IsTyped fields.get? name
  fault_iff : ∀ fault,
    outcome = .error (.fault fault) ↔ IsUnwritable fields.get? name ∧ fault = .longInteger

section Steps

variable {α β : Type} {first : Except Failure α} {next : α → Except Failure β}

/-- A value of a wrong type that cannot be written ends the steps with a fault. -/
theorem ChecksType.stop (h : ChecksType fields name first)
    (hlong : IsUnwritable fields.get? name) :
    (first >>= next) = .error (.fault .longInteger) :=
  Results.bind_eq_error.mpr (.inl ((h.fault_iff _).mpr ⟨hlong, rfl⟩))

/-- A value of the right type passes, so that a fault from behind is the fault of all steps. -/
theorem ChecksType.pass (h : ChecksType fields name first) (htyped : IsTyped fields.get? name)
    (hnext : ∀ value, first = .ok value → next value = .error (.fault fault)) :
    (first >>= next) = .error (.fault fault) := by
  obtain ⟨value, hvalue⟩ := h.ok_iff.mpr htyped
  exact Results.bind_eq_error.mpr (.inr ⟨value, hvalue, hnext value hvalue⟩)

end Steps

-- One name of the registry that is built in is there to fail, and it is not reported as unknown.
example : encodingNamed .builtin "undefined" = .error (.fault (.codec "UnicodeError"
    "encoding with 'undefined' codec failed (UnicodeError: undefined encoding)")) := by
  rfl

end ElmReach.Settings
