import ElmReach.Proofs.TracedOutcome
import ElmReach.Settings.Basic
import Mathlib.Tactic.Common

/-!
# Which settings are accepted

Each setting admits some values. A table of fields is accepted exactly if every setting admits the
value that the table gives it, and the default values are admitted; the settings then have the
values of the table, and the default values where the table says nothing. A table that is refused
is refused for a value that it holds itself.
-/

namespace ElmReach.Settings

/-- The value of the setting of a name, as it would stand in a settings file. -/
def valueOf (settings : Settings) : String → Option Value
  | "source_extension" => some (.text settings.extension)
  | "encoding" => some (.text settings.encodingName)
  | "follow_symlinks" => some (.flag settings.followLinks)
  | "verbosity" => some (.text settings.verbosity.name)
  | "log_file" => some (settings.logFile.elim .absent .text)
  | _ => none

/-- The setting of this name can have this value: an extension is a dot with something behind it, an
encoding is one that the registry knows by a name that can be looked up, and a log file may be
absent. -/
def Admits (codecs : Codecs) (name : String) (value : Value) : Prop :=
  match name with
  | "source_extension" =>
    ∃ text, value = .text text ∧ text.toList.head? = some '.' ∧ 2 ≤ text.length
  | "encoding" => ∃ text, value = .text text ∧ '\x00' ∉ text.toList ∧ codecs.Knows text
  | "follow_symlinks" => ∃ follow, value = .flag follow
  | "verbosity" => ∃ verbosity : Verbosity, value = .text verbosity.name
  | "log_file" => value = .absent ∨ ∃ file, value = .text file
  | _ => False

variable {codecs : Codecs} {fields : Assoc Value} {settings : Settings}

/-- The value that a table gives a setting, or its default. -/
def fieldOf (fields : Assoc Value) (name : String) : Option Value :=
  (fields.get? name).or (default.valueOf name)

/-- A text is an extension if it is a dot with something behind it. -/
theorem isExtension_iff {text : String} :
    isExtension text = true ↔ text.toList.head? = some '.' ∧ 2 ≤ text.length := by
  rw [← String.length_toList, isExtension]
  split
  · next heq => simp [heq]
  · next hno =>
    constructor
    · rintro ⟨⟩
    · rintro ⟨hdot, hlong⟩
      obtain ⟨rest, htext⟩ := List.head?_eq_some_iff.mp hdot
      cases rest with
      | nil => simp [htext] at hlong
      | cons c rest => exact absurd htext (hno c rest)

/-- A verbosity is found by its own name, and by no other one. -/
theorem named?_eq_some_iff {name : String} {verbosity : Verbosity} :
    Verbosity.named? name = some verbosity ↔ verbosity.name = name := by
  constructor
  · intro h
    unfold Verbosity.named? at h
    split at h <;> cases h <;> rfl
  · rintro rfl
    cases verbosity <;> rfl

/-- A setting with a text has the text of the table, or the default text if the table has no value
for it. A value that is no text is refused. -/
theorem textField_eq_ok_iff {name fallback text : String} :
    textField fields name fallback = .ok text ↔
      (fields.get? name).or (some (.text fallback)) = some (.text text) := by
  unfold textField
  split
  · next hnone => simp [hnone]
  · next hsome => simp [hsome]
  · next value hno hsome =>
    constructor
    · rintro ⟨⟩
    · intro h
      rw [hsome] at h
      exact absurd (Option.some.inj h) (hno text)

/-- The switch for links has the value of the table, or its default if the table has none. -/
theorem linksField_eq_ok_iff {follow : Bool} :
    linksField fields = .ok follow ↔
      (fields.get? "follow_symlinks").or (some (.flag false)) = some (.flag follow) := by
  unfold linksField
  split
  · next hnone => simp [hnone]
  · next hsome => simp [hsome]
  · next value hno hsome =>
    constructor
    · rintro ⟨⟩
    · intro h
      rw [hsome] at h
      exact absurd (Option.some.inj h) (hno follow)

/-- The log file is the one that the table names. There is none if the table has no value, or one
that is absent. -/
theorem logField_eq_ok_iff {file : Option String} :
    logField fields = .ok file ↔
      (fields.get? "log_file").or (some .absent) = some (file.elim .absent .text) := by
  unfold logField
  split
  · next hnone => cases file <;> simp [hnone]
  · next hsome => cases file <;> simp [hsome]
  · next text hsome => cases file <;> simp [hsome]
  · next value hnone htext hsome =>
    constructor
    · rintro ⟨⟩
    · intro h
      rw [hsome] at h
      cases file with
      | none => exact absurd (Option.some.inj h) hnone
      | some file => exact absurd (Option.some.inj h) (htext file)

/-- A name stands for an encoding if it can be looked up, and if the registry knows an encoding by
it. -/
theorem encodingNamed_eq_ok_iff {name : String} {encoding : Encoding} :
    encodingNamed codecs name = .ok encoding ↔
      '\x00' ∉ name.toList ∧ codecs.find name = .known encoding := by
  unfold encodingNamed
  by_cases hnull : '\x00' ∈ name.toList
  · simp [hnull]
  · cases hfind : codecs.find name <;> simp [hnull]

/-- What holds of each of the five settings holds of all of them, and the other way round. -/
theorem forall_fieldNames {P : String → Prop} :
    (∀ name ∈ fieldNames, P name) ↔
      P "source_extension" ∧ P "encoding" ∧ P "follow_symlinks" ∧ P "verbosity" ∧ P "log_file" := by
  simp [fieldNames]

/-- The checks that are left once every value has the right type. -/
def ofTyped (codecs : Codecs) (extension encodingName verbosityName : String) (followLinks : Bool)
    (logFile : Option String) : Except Failure Settings :=
  if isExtension extension then
    match Verbosity.named? verbosityName with
    | none =>
      .error (refused "verbosity" (.text verbosityName) "must be one of quiet, normal, verbose")
    | some verbosity =>
      (encodingNamed codecs encodingName).map fun encoding =>
        { extension, encodingName, encoding, followLinks, verbosity, logFile }
  else .error (refused "source_extension" (.text extension) "must look like '.elm'")

/-- A table is checked in two steps: first the types of its five values, in the order of the
settings, and then the values themselves. -/
theorem check_eq (codecs : Codecs) (fields : Assoc Value) :
    check codecs fields = (do
      let extension ← textField fields "source_extension" default.extension
      let encodingName ← textField fields "encoding" default.encodingName
      let verbosityName ← textField fields "verbosity" default.verbosity.name
      let followLinks ← linksField fields
      let logFile ← logField fields
      ofTyped codecs extension encodingName verbosityName followLinks logFile) := by
  unfold check
  congr 1; funext extension
  congr 1; funext encodingName
  congr 1; funext verbosityName
  congr 1; funext followLinks
  congr 1; funext logFile
  unfold ofTyped
  cases hextension : isExtension extension with
  | false => rfl
  | true =>
    cases hverbosity : Verbosity.named? verbosityName with
    | none => rfl
    | some verbosity => cases encodingNamed codecs encodingName <;> rfl

/-- Values of the right types are accepted exactly if the extension looks like one, the verbosity
has a name and the registry knows the encoding. Then they are the settings. -/
theorem ofTyped_eq_ok_iff {extension encodingName verbosityName : String} {followLinks : Bool}
    {logFile : Option String} :
    ofTyped codecs extension encodingName verbosityName followLinks logFile = .ok settings ↔
      isExtension extension = true ∧ settings.verbosity.name = verbosityName ∧
        ('\x00' ∉ encodingName.toList ∧ codecs.find encodingName = .known settings.encoding) ∧
        settings.extension = extension ∧ settings.encodingName = encodingName ∧
        settings.followLinks = followLinks ∧ settings.logFile = logFile := by
  unfold ofTyped
  constructor
  · intro h
    split at h
    · next hextension =>
      split at h
      · cases h
      · next verbosity hverbosity =>
        cases hencoding : encodingNamed codecs encodingName with
        | error failure => rw [hencoding] at h; cases h
        | ok encoding =>
          rw [hencoding] at h
          obtain rfl := Except.ok.inj h
          exact ⟨hextension, named?_eq_some_iff.mp hverbosity,
            encodingNamed_eq_ok_iff.mp hencoding, rfl, rfl, rfl, rfl⟩
    · cases h
  · rintro ⟨hextension, hverbosity, hencoding, rfl, rfl, rfl, rfl⟩
    rw [if_pos hextension, named?_eq_some_iff.mpr hverbosity]
    dsimp only
    rw [encodingNamed_eq_ok_iff.mpr hencoding]
    rfl

/-- A table is accepted as the settings that have its values, provided that their extension looks
like one and their encoding is known. -/
theorem check_eq_ok_iff :
    check codecs fields = .ok settings ↔
      (∀ name ∈ fieldNames, fieldOf fields name = settings.valueOf name) ∧
        isExtension settings.extension = true ∧ '\x00' ∉ settings.encodingName.toList ∧
          codecs.find settings.encodingName = .known settings.encoding := by
  rw [forall_fieldNames, check_eq]
  constructor
  · intro h
    obtain ⟨extension, hextension, h⟩ := Results.bind_eq_ok.mp h
    obtain ⟨encodingName, hencodingName, h⟩ := Results.bind_eq_ok.mp h
    obtain ⟨verbosityName, hverbosityName, h⟩ := Results.bind_eq_ok.mp h
    obtain ⟨followLinks, hlinks, h⟩ := Results.bind_eq_ok.mp h
    obtain ⟨logFile, hlog, h⟩ := Results.bind_eq_ok.mp h
    obtain ⟨hvalid, rfl, hencoding, rfl, rfl, rfl, rfl⟩ := ofTyped_eq_ok_iff.mp h
    exact ⟨⟨textField_eq_ok_iff.mp hextension, textField_eq_ok_iff.mp hencodingName,
      linksField_eq_ok_iff.mp hlinks, textField_eq_ok_iff.mp hverbosityName,
      logField_eq_ok_iff.mp hlog⟩, hvalid, hencoding⟩
  · rintro ⟨⟨hextension, hencodingName, hlinks, hverbosity, hlog⟩, hvalid, hencoding⟩
    rw [textField_eq_ok_iff.mpr hextension, textField_eq_ok_iff.mpr hencodingName,
      textField_eq_ok_iff.mpr hverbosity, linksField_eq_ok_iff.mpr hlinks,
      logField_eq_ok_iff.mpr hlog]
    exact ofTyped_eq_ok_iff.mpr ⟨hvalid, rfl, hencoding, rfl, rfl, rfl, rfl⟩

/-- Settings that can be made have values that their settings admit. -/
theorem admits_valueOf (hextension : isExtension settings.extension = true)
    (hnull : '\x00' ∉ settings.encodingName.toList)
    (hencoding : codecs.find settings.encodingName = .known settings.encoding) :
    ∀ name ∈ fieldNames, ∀ value, settings.valueOf name = some value →
      Admits codecs name value := by
  rw [forall_fieldNames]
  refine ⟨?_, ?_, ?_, ?_, ?_⟩
  · rintro value ⟨⟩
    exact ⟨_, rfl, isExtension_iff.mp hextension⟩
  · rintro value ⟨⟩
    exact ⟨_, rfl, hnull, _, hencoding⟩
  · rintro value ⟨⟩
    exact ⟨_, rfl⟩
  · rintro value ⟨⟩
    exact ⟨_, rfl⟩
  · rintro value ⟨⟩
    cases settings.logFile with
    | none => exact .inl rfl
    | some file => exact .inr ⟨file, rfl⟩

/-- Every default passes its own check, whatever else the registry knows. -/
theorem admits_default (codecs : Codecs) :
    ∀ name ∈ fieldNames, ∀ value, default.valueOf name = some value → Admits codecs name value :=
  admits_valueOf (by decide) (by decide) codecs.find_utf8

/-- Where the table has a value for a setting, this value is the setting's. -/
theorem fieldOf_of_get?_eq_some {name : String} {value : Value}
    (h : fields.get? name = some value) : fieldOf fields name = some value := by
  rw [fieldOf, h, Option.some_or]

/-- Where the table has no value for a setting, the default one is the setting's. -/
theorem fieldOf_of_get?_eq_none {name : String} (h : fields.get? name = none) :
    fieldOf fields name = default.valueOf name := by
  rw [fieldOf, h, Option.none_or]

/-- Every setting has a value, since there is a default for each of them. -/
theorem exists_fieldOf {name : String} (hname : name ∈ fieldNames) :
    ∃ value, fieldOf fields name = some value := by
  cases hget : fields.get? name with
  | some value => exact ⟨value, fieldOf_of_get?_eq_some hget⟩
  | none =>
    rw [fieldOf_of_get?_eq_none hget]
    revert name
    rw [forall_fieldNames]
    exact ⟨fun _ => ⟨_, rfl⟩, fun _ => ⟨_, rfl⟩, fun _ => ⟨_, rfl⟩, fun _ => ⟨_, rfl⟩,
      fun _ => ⟨_, rfl⟩⟩

/-- A table is accepted if every setting admits its value, which is the default value where the
table has none. -/
theorem exists_check_eq_ok_iff :
    (∃ settings, check codecs fields = .ok settings) ↔
      ∀ name ∈ fieldNames, ∀ value, fieldOf fields name = some value →
        Admits codecs name value := by
  constructor
  · rintro ⟨settings, h⟩ name hname value hvalue
    obtain ⟨hfields, hextension, hnull, hencoding⟩ := check_eq_ok_iff.mp h
    rw [hfields name hname] at hvalue
    exact admits_valueOf hextension hnull hencoding name hname value hvalue
  · intro hadmits
    have hfield (name : String) (hname : name ∈ fieldNames) :
        ∃ value, fieldOf fields name = some value ∧ Admits codecs name value := by
      obtain ⟨value, hvalue⟩ : ∃ value, fieldOf fields name = some value := exists_fieldOf hname
      exact ⟨value, hvalue, hadmits name hname value hvalue⟩
    obtain ⟨_, hextension, extension, rfl, hlooks⟩ := hfield "source_extension" (by decide)
    obtain ⟨_, hencodingName, encodingName, rfl, hnull, encoding, hencoding⟩ :=
      hfield "encoding" (by decide)
    obtain ⟨_, hfollow, followLinks, rfl⟩ := hfield "follow_symlinks" (by decide)
    obtain ⟨_, hverbosity, verbosity, rfl⟩ := hfield "verbosity" (by decide)
    obtain ⟨logFile, hlogFile⟩ : ∃ file : Option String,
        fieldOf fields "log_file" = some (file.elim .absent .text) := by
      obtain ⟨_, hlogFile, rfl | ⟨file, rfl⟩⟩ := hfield "log_file" (by decide)
      · exact ⟨none, hlogFile⟩
      · exact ⟨some file, hlogFile⟩
    refine ⟨{ extension, encodingName, encoding, followLinks, verbosity, logFile },
      check_eq_ok_iff.mpr ⟨forall_fieldNames.mpr ?_, isExtension_iff.mpr hlooks, hnull, hencoding⟩⟩
    exact ⟨hextension, hencodingName, hfollow, hverbosity, hlogFile⟩

/-- A table value that its setting does not admit. It is what a failed check reports. -/
structure Offends (codecs : Codecs) (fields : Assoc Value) (name : String) (value : Value) :
    Prop where
  isField : name ∈ fieldNames
  get? : fields.get? name = some value
  notAdmitted : ¬ Admits codecs name value

/-- A default is always admitted, so a value that is not admitted stands in the table. -/
theorem offends_of_fieldOf {name : String} {value : Value} (hname : name ∈ fieldNames)
    (hfield : fieldOf fields name = some value) (hnot : ¬ Admits codecs name value) :
    Offends codecs fields name value where
  isField := hname
  get? := by
    cases hget : fields.get? name with
    | some other =>
      rw [fieldOf_of_get?_eq_some hget] at hfield
      exact hfield
    | none =>
      rw [fieldOf_of_get?_eq_none hget] at hfield
      exact absurd (admits_default codecs name hname value hfield) hnot
  notAdmitted := hnot

/-- The names of the settings whose values are texts. -/
def textNames : List String := ["source_extension", "encoding", "verbosity"]

/-- A setting whose value has to be a text admits texts only. -/
theorem exists_text_of_admits {name : String} {value : Value} (hname : name ∈ textNames)
    (h : Admits codecs name value) : ∃ text, value = .text text := by
  simp only [textNames, List.mem_cons, List.not_mem_nil, or_false] at hname
  rcases hname with rfl | rfl | rfl
  · obtain ⟨text, rfl, -⟩ := h
    exact ⟨text, rfl⟩
  · obtain ⟨text, rfl, -⟩ := h
    exact ⟨text, rfl⟩
  · obtain ⟨verbosity, rfl⟩ := h
    exact ⟨verbosity.name, rfl⟩

/-- A text field that fails has a value in the table that the setting does not admit, and the
failure is how it is refused. -/
theorem offends_of_textField_eq_error {name fallback : String} {failure : Failure}
    (hname : name ∈ textNames) (h : textField fields name fallback = .error failure) :
    ∃ value reason, Offends codecs fields name value ∧ failure = refused name value reason := by
  unfold textField at h
  split at h
  · cases h
  · cases h
  · next value hno hget =>
    have hfields : ∀ name ∈ textNames, name ∈ fieldNames := by decide
    refine ⟨value, _, ⟨hfields name hname, hget, fun hadmits => ?_⟩, (Except.error.inj h).symm⟩
    obtain ⟨text, rfl⟩ := exists_text_of_admits hname hadmits
    exact hno text rfl

/-- The switch for links fails only with a value in the table that is neither true nor false, and
the failure is how it is refused. -/
theorem offends_of_linksField_eq_error {failure : Failure}
    (h : linksField fields = .error failure) :
    ∃ value reason, Offends codecs fields "follow_symlinks" value ∧
      failure = refused "follow_symlinks" value reason := by
  unfold linksField at h
  split at h
  · cases h
  · cases h
  · next value hno hget =>
    refine ⟨value, _, ⟨by decide, hget, fun hadmits => ?_⟩, (Except.error.inj h).symm⟩
    obtain ⟨follow, rfl⟩ := hadmits
    exact hno follow rfl

/-- The log file fails only with a value in the table that is neither a text nor absent, and the
failure is how it is refused. -/
theorem offends_of_logField_eq_error {failure : Failure} (h : logField fields = .error failure) :
    ∃ value reason,
      Offends codecs fields "log_file" value ∧ failure = refused "log_file" value reason := by
  unfold logField at h
  split at h
  · cases h
  · cases h
  · cases h
  · next value hnone htext hget =>
    refine ⟨value, _, ⟨by decide, hget, fun hadmits => ?_⟩, (Except.error.inj h).symm⟩
    rcases hadmits with rfl | ⟨file, rfl⟩
    · exact hnone rfl
    · exact htext file rfl

/-- How a value that a setting does not admit is turned down: with a report, or with a fault if it
is the name of an encoding and cannot be looked up, or the registry fails with it. -/
inductive TurnedDown (codecs : Codecs) (name : String) (value : Value) : Failure → Prop
  | report (reason : String) : TurnedDown codecs name value (refused name value reason)
  | nullCharacter : TurnedDown codecs name value (.fault .nullCharacter)
  | codec (kind message : String) : TurnedDown codecs name value (.fault (.codec kind message))

/-- Turning a value down does not say that a field is unexpected. So this fault always comes from a
name in the table. -/
theorem not_turnedDown_unexpectedField {name other : String} {value : Value} :
    ¬ TurnedDown codecs name value (.fault (.unexpectedField other)) := by
  generalize hfailure : Failure.fault (.unexpectedField other) = failure
  rintro (reason | _ | ⟨kind, message⟩)
  · unfold refused at hfailure
    split at hfailure <;> cases hfailure
  · cases hfailure
  · cases hfailure

/-- A report names the setting and the value that it turns down. -/
theorem TurnedDown.eq_of_invalidField {name field reason : String} {value reported : Value}
    (h : TurnedDown codecs name value (.error (.invalidField field reported reason))) :
    field = name ∧ reported = value := by
  generalize hfailure : Failure.error (.invalidField field reported reason) = failure at h
  rcases h with reason | _ | ⟨kind, message⟩
  · unfold refused at hfailure
    split at hfailure
    · cases hfailure
      exact ⟨rfl, rfl⟩
    · cases hfailure
  · cases hfailure
  · cases hfailure

/-- A name that stands for no encoding is no value that the setting admits, and it is turned down:
as unknown, as a name that cannot be looked up, or with what the registry fails with. -/
theorem turnedDown_of_encodingNamed {name : String} {failure : Failure}
    (h : encodingNamed codecs name = .error failure) :
    ¬ Admits codecs "encoding" (.text name) ∧
      TurnedDown codecs "encoding" (.text name) failure := by
  have hknows (h : ∀ encoding, codecs.find name ≠ .known encoding) :
      ¬ Admits codecs "encoding" (.text name) := by
    rintro ⟨_, ⟨rfl⟩, -, encoding, hfind⟩
    exact h encoding hfind
  unfold encodingNamed at h
  split at h
  · next hnull =>
    obtain rfl := Except.error.inj h
    refine ⟨?_, .nullCharacter⟩
    rintro ⟨_, ⟨rfl⟩, hno, -⟩
    exact hno hnull
  · split at h
    · cases h
    · next hfind =>
      obtain rfl := Except.error.inj h
      exact ⟨hknows (by simp [hfind]), .report _⟩
    · next kind message hfind =>
      obtain rfl := Except.error.inj h
      exact ⟨hknows (by simp [hfind]), .codec kind message⟩

/-- A table is refused for a value that it holds, and that its setting does not admit. -/
theorem offends_of_check_eq_error {failure : Failure} (h : check codecs fields = .error failure) :
    ∃ name value, Offends codecs fields name value ∧ TurnedDown codecs name value failure := by
  have hrefused {name : String} (hoffends : ∃ value reason, Offends codecs fields name value ∧
      failure = refused name value reason) :
      ∃ name value, Offends codecs fields name value ∧ TurnedDown codecs name value failure := by
    obtain ⟨value, reason, hoffends, rfl⟩ := hoffends
    exact ⟨name, value, hoffends, .report reason⟩
  rw [check_eq] at h
  rcases Results.bind_eq_error.mp h with herror | ⟨extension, hextension, h⟩
  · exact hrefused (offends_of_textField_eq_error (by decide) herror)
  rcases Results.bind_eq_error.mp h with herror | ⟨encodingName, hencodingName, h⟩
  · exact hrefused (offends_of_textField_eq_error (by decide) herror)
  rcases Results.bind_eq_error.mp h with herror | ⟨verbosityName, hverbosityName, h⟩
  · exact hrefused (offends_of_textField_eq_error (by decide) herror)
  rcases Results.bind_eq_error.mp h with herror | ⟨followLinks, hlinks, h⟩
  · exact hrefused (offends_of_linksField_eq_error herror)
  rcases Results.bind_eq_error.mp h with herror | ⟨logFile, hlog, h⟩
  · exact hrefused (offends_of_logField_eq_error herror)
  unfold ofTyped at h
  split at h
  · split at h
    · next hverbosity =>
      refine hrefused ⟨_, _,
        offends_of_fieldOf (by decide) (textField_eq_ok_iff.mp hverbosityName) ?_,
        (Except.error.inj h).symm⟩
      rintro ⟨verbosity, ⟨rfl⟩⟩
      rw [named?_eq_some_iff.mpr rfl] at hverbosity
      cases hverbosity
    · cases hencoding : encodingNamed codecs encodingName with
      | ok encoding => rw [hencoding] at h; cases h
      | error other =>
        rw [hencoding] at h
        obtain rfl := Except.error.inj h
        obtain ⟨hnot, hturned⟩ := turnedDown_of_encodingNamed hencoding
        exact ⟨_, _, offends_of_fieldOf (by decide) (textField_eq_ok_iff.mp hencodingName) hnot,
          hturned⟩
  · next hinvalid =>
    refine hrefused ⟨_, _, offends_of_fieldOf (by decide) (textField_eq_ok_iff.mp hextension) ?_,
      (Except.error.inj h).symm⟩
    rintro ⟨_, ⟨rfl⟩, hlooks⟩
    exact hinvalid (isExtension_iff.mpr hlooks)

end ElmReach.Settings
