import ElmReach.Proofs.DocumentKeys
import ElmReach.Proofs.LinkFree
import ElmReach.Proofs.MergedTables
import ElmReach.Proofs.SettingsCheck
import ElmReach.Settings.Layers
import Mathlib.Tactic.Common

/-!
# The highest layer decides

The settings of a run come from five layers. What the layers say of a name is what the highest layer
with a value for it says, so only these values are checked: a value that a higher layer replaces is
never looked at. The tables of the layers are described here without the way in which they are
merged.
-/

namespace ElmReach.Settings

/-- The file at a path exists and holds a document, and `table` is the part of it that is for this
tool: its table of the tool's name, if there is one, and all of it otherwise. -/
def FileHolds (host : Host) (path : String) (table : Assoc Value) : Prop :=
  fileExists host path = .ok true ∧ ∃ bytes text document,
    host.tree.read host.here path = .ok bytes ∧ Utf8.decode bytes = .ok text ∧
      Toml.read host.room.values text = .ok document ∧
        (document.get? "elmsweep" = some (.table table) ∨
          (∀ fields, document.get? "elmsweep" ≠ some (.table fields)) ∧ table = document)

/-- A settings file that need not exist gives this table, which is empty if there is no file. -/
def FileGives (host : Host) (path : String) (table : Assoc Value) : Prop :=
  FileHolds host path table ∨ fileExists host path = .ok false ∧ table = []

/-- The tables of the settings files of a run: that of the home directory, that of the working
directory, and the one that is asked for, which must exist. -/
structure FileTables (host : Host) (file : Option String) (home here asked : Assoc Value) :
    Prop where
  home : ∃ path, homeFile host = .ok path ∧ FileGives host path home
  here : ∃ path, hereFile host = .ok path ∧ FileGives host path here
  asked : (file = none ∧ asked = []) ∨
    ∃ path, file = some path ∧ FileHolds host (Path.tidy path) asked

/-- What the environment says of a name: the text of its variable or, for the switch of links, what
this text says. The variables of no other names are read. -/
def environmentValue (environment : Assoc String) (name : String) : Option Value :=
  if name ∈ fieldNames then
    (environment.get? (variableOf name)).bind fun text =>
      if name = "follow_symlinks" then (switch? text).map .flag else some (.text text)
  else none

/-- A switch among the overrides is on: it is there, and its value counts as true. -/
def switchedOn (overrides : Assoc Value) (switch : String) : Bool :=
  (overrides.get? switch).any Value.isSet

/-- Whether a value is there. An override that is absent does not replace what the lower layers
say. -/
def isPresent : Value → Bool
  | .absent => false
  | _ => true

/-- What the overrides say of a name. The switch `quiet` decides the verbosity before the switch
`verbose`, and that one before a verbosity that is given; an absent value says nothing. -/
def overrideValue (overrides : Assoc Value) (name : String) : Option Value :=
  if name = "verbose" ∨ name = "quiet" then none
  else if name = "verbosity" ∧ switchedOn overrides "quiet" then some (.text "quiet")
  else if name = "verbosity" ∧ switchedOn overrides "verbose" then some (.text "verbose")
  else (overrides.get? name).filter isPresent

/-- What the highest layer with a value for a name says: the overrides, then the environment, then
the file that is asked for, then those of the working directory and the home directory. -/
def layered (overrides : Assoc Value) (environment : Assoc String) (asked here home : Assoc Value)
    (name : String) : Option Value :=
  (overrideValue overrides name).or <| (environmentValue environment name).or <|
    (asked.get? name).or <| (here.get? name).or (home.get? name)

section Files

variable {host : Host} {path : String} {table : Assoc Value}

/-- A table that was read from a file has no name twice. What is read as a document has none twice,
and neither have its tables. -/
theorem FileHolds.nodup_names (h : FileHolds host path table) : table.names.Nodup := by
  obtain ⟨-, bytes, text, document, -, -, hread, hpart⟩ := h
  obtain ⟨hdocument, htables⟩ := Toml.nodup_names_read hread
  rcases hpart with hpart | ⟨-, rfl⟩
  · exact htables "elmsweep" table hpart
  · exact hdocument

/-- The layer of a file is the table that it holds. -/
theorem FileHolds.fileLayer_eq (h : FileHolds host path table) :
    fileLayer host path = .ok table := by
  obtain ⟨-, bytes, text, document, hbytes, htext, hread, hpart⟩ := h
  have hsection : sectionOf document = table := by
    unfold sectionOf
    rcases hpart with hpart | ⟨hno, rfl⟩
    · rw [hpart]
    · split
      · next fields hfields => exact absurd hfields (hno fields)
      · rfl
  rw [fileLayer, hbytes]
  dsimp only
  rw [htext]
  dsimp only
  rw [hread]
  dsimp only
  rw [hsection]

/-- A table that a file gives has no name twice. -/
theorem FileGives.nodup_names (h : FileGives host path table) : table.names.Nodup := by
  rcases h with h | ⟨-, rfl⟩
  · exact h.nodup_names
  · exact List.nodup_nil

/-- The layer of a file that is looked for is the table that the file gives. -/
theorem FileGives.discoveredLayer_eq (h : FileGives host path table) :
    discoveredLayer host path = .ok table := by
  rcases h with h | ⟨hmissing, rfl⟩
  · rw [discoveredLayer, h.1]
    exact h.fileLayer_eq
  · rw [discoveredLayer, hmissing]
    rfl

end Files

/-- The switch for following links, if the environment sets it, is one of the words for it. -/
def SwitchIsRead (environment : Assoc String) : Prop :=
  ∀ text, environment.get? (variableOf "follow_symlinks") = some text → (switch? text).isSome

/-- A variable of the environment gives its value to its field, provided that the switch for links
is one of the words for it. -/
theorem variableField_eq {host : Host} (hswitch : SwitchIsRead host.environment) {field : String}
    (hfield : field ∈ fieldNames) :
    variableField host field =
      .ok ((environmentValue host.environment field).map (field, ·)).toList := by
  rw [variableField, environmentValue, if_pos hfield]
  cases hget : host.environment.get? (variableOf field) with
  | none => rfl
  | some text =>
    dsimp only [Option.bind_some]
    split
    · next hlinks =>
      obtain ⟨follow, hfollow⟩ := Option.isSome_iff_exists.mp (hswitch text (hlinks ▸ hget))
      rw [hfollow]
      rfl
    · rfl

/-- The layer of the environment says what the environment says, and has each name once. -/
theorem exists_variableLayer_eq {host : Host} (hswitch : SwitchIsRead host.environment) :
    ∃ layer, variableLayer host = .ok layer ∧ layer.names.Nodup ∧
      ∀ name, layer.get? name = environmentValue host.environment name := by
  refine ⟨fieldNames.filterMap fun field =>
    (environmentValue host.environment field).map (field, ·), ?_, ?_, fun name => ?_⟩
  · rw [variableLayer, Results.mapM_eq_ok fun field hfield => variableField_eq hswitch hfield,
      List.filterMap_eq_flatMap_toList]
    rfl
  · exact Assoc.nodup_names_filterMap _ (by decide)
  · rw [Assoc.get?_filterMap]
    split
    · rfl
    · next hname => rw [environmentValue, if_neg hname]

section Overrides

variable {overrides : Assoc Value} {switch name : String}

/-- Folding a switch into the verbosity leaves no name twice. -/
theorem nodup_names_foldSwitch (h : overrides.names.Nodup) (switch : String) :
    (foldSwitch switch overrides).names.Nodup := by
  unfold foldSwitch
  split
  · exact h
  · refine Assoc.nodup_names_filter _ ?_
    split
    · exact Assoc.nodup_names_insert h _ _
    · exact h

/-- A switch is taken away, and if it is on, it decides the verbosity. -/
theorem get?_foldSwitch (overrides : Assoc Value) (switch name : String) :
    (foldSwitch switch overrides).get? name =
      if name = switch then none
      else if name = "verbosity" ∧ switchedOn overrides switch then some (.text switch)
      else overrides.get? name := by
  unfold foldSwitch switchedOn
  cases hget : overrides.get? switch with
  | none =>
    by_cases hname : name = switch
    · simp [hname, hget]
    · simp [hname]
  | some value =>
    dsimp only
    rw [Assoc.get?_filter_ne]
    by_cases hset : value.isSet = true
    · simp [hset, Assoc.get?_insert]
    · simp [hset]

/-- The layer of the overrides is what is left of them when both switches are folded and what is
absent is left out. The switch for quiet is folded last, so that it wins. -/
theorem overrideLayer_eq (overrides : Assoc Value) :
    overrideLayer overrides =
      (foldSwitch "quiet" (foldSwitch "verbose" overrides)).filter
        fun entry => isPresent entry.2 := by
  unfold overrideLayer
  congr 1

/-- The layer of the overrides says what the overrides say: a switch decides the verbosity, and an
absent value says nothing. -/
theorem get?_overrideLayer (h : overrides.names.Nodup) (name : String) :
    (overrideLayer overrides).get? name = overrideValue overrides name := by
  have hon : switchedOn (foldSwitch "verbose" overrides) "quiet" =
      switchedOn overrides "quiet" := by
    unfold switchedOn
    rw [get?_foldSwitch]
    simp
  have hnames := nodup_names_foldSwitch (nodup_names_foldSwitch h "verbose") "quiet"
  rw [overrideLayer_eq, Assoc.get?_filter _ hnames, get?_foldSwitch, get?_foldSwitch, hon,
    overrideValue]
  by_cases hswitch : name = "verbose" ∨ name = "quiet"
  · rcases hswitch with rfl | rfl <;> simp
  · obtain ⟨hverbose, hquiet⟩ := not_or.mp hswitch
    by_cases hverbosity : name = "verbosity"
    · subst hverbosity
      cases switchedOn overrides "quiet" <;> cases switchedOn overrides "verbose" <;>
        simp [Option.filter, isPresent]
    · simp [hverbose, hquiet, hverbosity]

/-- The layer of the overrides has no name twice. -/
theorem nodup_names_overrideLayer (h : overrides.names.Nodup) :
    (overrideLayer overrides).names.Nodup :=
  Assoc.nodup_names_filter _ (nodup_names_foldSwitch (nodup_names_foldSwitch h "verbose") "quiet")

end Overrides

section Load

variable {host : Host} {file : Option String} {overrides table : Assoc Value}

/-- The merged table gives each name the value of the highest layer that has one. Merging is looked
at one name at a time, from the lowest layer up. -/
theorem exists_merged_eq {home here asked : Assoc Value}
    (hfiles : FileTables host file home here asked) (hswitch : SwitchIsRead host.environment)
    (hoverrides : overrides.names.Nodup) :
    ∃ table, merged host file overrides = .ok table ∧
      ∀ name, table.get? name = layered overrides host.environment asked here home name := by
  obtain ⟨⟨path, hpath, hhome⟩, ⟨project, hproject, hhere⟩, hasked⟩ := hfiles
  obtain ⟨environment, henvironment, hnodup, hvalues⟩ := exists_variableLayer_eq hswitch
  have hexplicit : explicitLayer host file = .ok asked ∧ asked.names.Nodup := by
    rcases hasked with ⟨rfl, rfl⟩ | ⟨path, rfl, hholds⟩
    · exact ⟨rfl, List.nodup_nil⟩
    · refine ⟨?_, hholds.nodup_names⟩
      rw [explicitLayer, hholds.1]
      dsimp only [bind, Except.bind]
      rw [if_pos rfl, hholds.fileLayer_eq]
  refine ⟨(((Assoc.merge [] home |>.merge here).merge asked).merge environment).merge
    (overrideLayer overrides), ?_, fun name => ?_⟩
  · rw [merged, hpath]
    change (discoveredLayer host path >>= _) = _
    rw [hhome.discoveredLayer_eq, hproject]
    change (discoveredLayer host project >>= _) = _
    rw [hhere.discoveredLayer_eq, hexplicit.1, henvironment]
    rfl
  · rw [Assoc.get?_merge _ (nodup_names_overrideLayer hoverrides), Assoc.get?_merge _ hnodup,
      Assoc.get?_merge _ hexplicit.2, Assoc.get?_merge _ hhere.nodup_names,
      Assoc.get?_merge _ hhome.nodup_names, get?_overrideLayer hoverrides, hvalues, layered]
    simp [Assoc.get?]

/-- Loading checks the merged table; a name that no setting has is reported. -/
theorem load_eq (hkeyword : fileArgument ∉ overrides.names)
    (hmerged : merged host file overrides = .ok table) :
    load host file overrides =
      match ofFields host.codecs table with
      | .error (.fault (.unexpectedField name)) => .error (.error (.unexpectedSetting name))
      | outcome => outcome := by
  rw [load, if_neg hkeyword, hmerged]
  rfl

/-- The first name of the merged table that no setting has is reported. -/
theorem load_eq_error_of_unknown (hkeyword : fileArgument ∉ overrides.names)
    (hmerged : merged host file overrides = .ok table) {name : String} (hname : name ∈ table.names)
    (hunknown : name ∉ fieldNames) :
    ∃ first ∈ table.names, first ∉ fieldNames ∧
      load host file overrides = .error (.error (.unexpectedSetting first)) := by
  cases hfind : table.names.find? (· ∉ fieldNames) with
  | none =>
    have hall := List.find?_eq_none.mp hfind name hname
    exact absurd hunknown (by simpa using hall)
  | some first =>
    have hfirst : first ∉ fieldNames := by simpa using List.find?_some hfind
    refine ⟨first, List.mem_of_find?_eq_some hfind, hfirst, ?_⟩
    rw [load_eq hkeyword hmerged, ofFields, hfind]

/-- If the merged table has names of settings only, its values are checked. -/
theorem load_eq_check (hkeyword : fileArgument ∉ overrides.names)
    (hmerged : merged host file overrides = .ok table)
    (hknown : ∀ name ∈ table.names, name ∈ fieldNames) :
    load host file overrides = check host.codecs table := by
  have hfind : table.names.find? (· ∉ fieldNames) = none := by
    simpa [List.find?_eq_none] using hknown
  rw [load_eq hkeyword hmerged, ofFields, hfind]
  dsimp only
  split
  · next name herror =>
    -- The checks of values never complain about a name.
    obtain ⟨field, value, -, hturned⟩ := offends_of_check_eq_error herror
    exact absurd hturned not_turnedDown_unexpectedField
  · rfl

end Load

/-- The settings of a run are those that the highest layers give. Loading them succeeds iff every
name with a value is the name of a setting and every setting admits its value, or its default if no
layer gives one; the settings then have these values. A name that no setting has is reported, and a
value is refused only if no higher layer replaces it. -/
theorem load_ok_iff_and_values {host : Host} {file : Option String}
    {overrides home here asked : Assoc Value} (hfiles : FileTables host file home here asked)
    (hswitch : SwitchIsRead host.environment) (hoverrides : overrides.names.Nodup)
    (hkeyword : fileArgument ∉ overrides.names) :
    let values := layered overrides host.environment asked here home
    ((∃ settings, load host file overrides = .ok settings) ↔
      (∀ name, (values name).isSome → name ∈ fieldNames) ∧
        ∀ name ∈ fieldNames, ∀ value, (values name).or (default.valueOf name) = some value →
          Admits host.codecs name value) ∧
    (∀ settings, load host file overrides = .ok settings →
      (∀ name ∈ fieldNames, settings.valueOf name = (values name).or (default.valueOf name)) ∧
        host.codecs.find settings.encodingName = .known settings.encoding) ∧
    (∀ name, (values name).isSome → name ∉ fieldNames →
      ∃ error, load host file overrides = .error (.error error) ∧
        error.label = "ConfigurationError") ∧
    ∀ name value reason,
      load host file overrides = .error (.error (.invalidField name value reason)) →
        values name = some value ∧ ¬ Admits host.codecs name value := by
  intro values
  obtain ⟨table, hmerged, htable⟩ := exists_merged_eq hfiles hswitch hoverrides
  have hnames (name : String) : (values name).isSome ↔ name ∈ table.names := by
    rw [← Assoc.isSome_get?_iff, htable]
  have hfield (name : String) : (values name).or (default.valueOf name) = fieldOf table name := by
    rw [fieldOf, htable]
  have hunknown {name : String} (hname : name ∈ table.names) (hno : name ∉ fieldNames) :=
    load_eq_error_of_unknown hkeyword hmerged hname hno
  -- Unless the load is stopped by an unknown name, it is the check of the merged table.
  have hcheck (h : ¬ ∃ name, load host file overrides = .error (.error (.unexpectedSetting name))) :
      (∀ name ∈ table.names, name ∈ fieldNames) ∧
        load host file overrides = check host.codecs table := by
    have hknown (name : String) (hname : name ∈ table.names) : name ∈ fieldNames := by
      by_contra hno
      obtain ⟨first, -, -, hfirst⟩ := hunknown hname hno
      exact h ⟨first, hfirst⟩
    exact ⟨hknown, load_eq_check hkeyword hmerged hknown⟩
  refine ⟨⟨?_, ?_⟩, ?_, ?_, ?_⟩
  · rintro ⟨settings, hload⟩
    obtain ⟨hknown, heq⟩ := hcheck (by simp [hload])
    refine ⟨fun name hsome => hknown name ((hnames name).mp hsome),
      fun name hname value hvalue => ?_⟩
    rw [hfield] at hvalue
    exact exists_check_eq_ok_iff.mp ⟨settings, heq ▸ hload⟩ name hname value hvalue
  · rintro ⟨hknown, hadmits⟩
    rw [load_eq_check hkeyword hmerged fun name hname => hknown name ((hnames name).mpr hname)]
    exact exists_check_eq_ok_iff.mpr fun name hname value hvalue =>
      hadmits name hname value ((hfield name).trans hvalue)
  · intro settings hload
    obtain ⟨-, heq⟩ := hcheck (by simp [hload])
    obtain ⟨hfields, -, -, hencoding⟩ := check_eq_ok_iff.mp (heq ▸ hload)
    refine ⟨fun name hname => ?_, hencoding⟩
    rw [hfield, hfields name hname]
  · intro name hsome hno
    obtain ⟨first, -, -, hfirst⟩ := hunknown ((hnames name).mp hsome) hno
    exact ⟨.unexpectedSetting first, hfirst, rfl⟩
  · intro name value reason hload
    obtain ⟨-, heq⟩ := hcheck (by simp [hload])
    obtain ⟨field, offender, hoffends, hturned⟩ := offends_of_check_eq_error (heq ▸ hload)
    obtain ⟨rfl, rfl⟩ := hturned.eq_of_invalidField
    exact ⟨(htable name).symm.trans hoffends.get?, hoffends.notAdmitted⟩

/-- A settings file in the home directory with values that no setting admits. Both are replaced by
higher layers, so they are never looked at. -/
def homeText : String := "encoding = 5\nverbosity = \"loud\"\n"

/-- A settings file in the working directory with a table for the tool. -/
def hereText : String := "[elmsweep]\nencoding = \"cp1252\"\n"

/-- A settings file that is asked for. It has no section of its own for the tool, so the whole
document is its table. -/
def askedText : String := "source_extension = \".el\"\n"

/-- The characters of the bytes from 0x80 to 0x9F in Windows-1252, five of which it does not use. -/
def windowsRow : List (Option Char) :=
  [some '€', none, some '‚', some 'ƒ', some '„', some '…', some '†', some '‡',
    some 'ˆ', some '‰', some 'Š', some '‹', some 'Œ', none, some 'Ž', none,
    none, some '‘', some '’', some '“', some '”', some '•', some '–', some '—',
    some '˜', some '™', some 'š', some '›', some 'œ', none, some 'ž', some 'Ÿ']

/-- The character of a byte in Windows-1252: outside of one row, a byte is the code point of its
character. -/
def windowsChar (byte : UInt8) : Option Char :=
  if byte < 128 then some (Char.ofNat byte.toNat)
  else windowsRow.getD (byte.toNat - 128) (some (Char.ofNat byte.toNat))

/-- Decode Windows-1252 bytes that stand at `position`. -/
def decodeWindows (position : Nat) : List UInt8 → Except DecodeFault (List Char)
  | [] => .ok []
  | byte :: rest =>
    match windowsChar byte with
    | some c => do
      let text ← decodeWindows (position + 1) rest
      return c :: text
    | none =>
      .error
        { codec := "charmap", start := position, bytes := [byte]
          reason := "character maps to <undefined>" }

/-- A host with these three files, which knows one more encoding. Its registry answers the name of
this encoding with a decoder. -/
def layeredHost : Host where
  tree :=
    ⟨[(["h"], .directory), (["h", ".elmsweep.toml"], .file homeText.toUTF8.toList),
      (["w"], .directory), (["w", "elmsweep.toml"], .file hereText.toUTF8.toList),
      (["w", "x.toml"], .file askedText.toUTF8.toList)]⟩
  here := ["w"]
  accountHome := "/h"
  environment := [("ELMSWEEP_FOLLOW_SYMLINKS", "Yes")]
  time := ""
  codecs := .extended .builtin "cp1252" (.known (.ofDecoder (decodeWindows 0)))

/-- A file of this host holds the table of its document's section, or the whole document as its
table. -/
theorem fileHolds_layeredHost (place : Place) (text : String) {path : String}
    {document table : Assoc Value} (hpath : place.render = path) (hproper : place.IsProper)
    (hne : place ≠ []) (hat : layeredHost.tree.IsAt place (.file text.toUTF8.toList))
    (htext : (Utf8.decode text.toUTF8.toList).toOption = some text.toList)
    (hread : Toml.read layeredHost.room.values text.toList = .ok document)
    (hpart : document.get? "elmsweep" = some (.table table) ∨
      (∀ fields, document.get? "elmsweep" ≠ some (.table fields)) ∧ table = document) :
    FileHolds layeredHost path table := by
  have hlocate := hat.locate_eq hproper hne layeredHost.here
  rw [hpath] at hlocate
  refine ⟨?_, text.toUTF8.toList, text.toList, document, ?_, ?_, hread, hpart⟩
  · rw [fileExists, FileTree.exists?, hlocate]
  · rw [FileTree.read, hlocate]
  · cases hdecode : Utf8.decode text.toUTF8.toList with
    | error fault =>
      rw [hdecode] at htext
      cases htext
    | ok other =>
      rw [hdecode] at htext
      exact congrArg Except.ok (Option.some.inj htext)

/-- The files of this host hold the tables of its three layers. One of them is in a section of its
document. -/
theorem fileTables_layeredHost :
    FileTables layeredHost (some "/w/x.toml") [("encoding", .int 5), ("verbosity", .text "loud")]
      [("encoding", .text "cp1252")] [("source_extension", .text ".el")] where
  home := by
    have hread : Toml.read layeredHost.room.values homeText.toList =
        .ok [("encoding", .int 5), ("verbosity", .text "loud")] := by decide +kernel
    refine ⟨"/h/.elmsweep.toml", by decide +kernel, .inl ?_⟩
    refine fileHolds_layeredHost ["h", ".elmsweep.toml"] homeText (by decide +kernel) (by decide)
      (by decide) (by decide +kernel) (by decide +kernel) hread (.inr ⟨?_, rfl⟩)
    rintro fields ⟨⟩
  here := by
    have hread : Toml.read layeredHost.room.values hereText.toList =
        .ok [("elmsweep", .table [("encoding", .text "cp1252")])] := by decide +kernel
    refine ⟨"/w/elmsweep.toml", by decide +kernel, .inl ?_⟩
    exact fileHolds_layeredHost ["w", "elmsweep.toml"] hereText (by decide +kernel) (by decide)
      (by decide) (by decide +kernel) (by decide +kernel) hread (.inl (by decide +kernel))
  asked := by
    have hpath : Path.tidy "/w/x.toml" = "/w/x.toml" := by decide +kernel
    have hread : Toml.read layeredHost.room.values askedText.toList =
        .ok [("source_extension", .text ".el")] := by decide +kernel
    refine .inr ⟨_, rfl, ?_⟩
    rw [hpath]
    refine fileHolds_layeredHost ["w", "x.toml"] askedText (by decide +kernel) (by decide)
      (by decide) (by decide +kernel) (by decide +kernel) hread (.inr ⟨?_, rfl⟩)
    rintro fields ⟨⟩

/-- The overrides of this example: a switch, and a log file that is not given. -/
def layeredOverrides : Assoc Value := [("verbose", .flag true), ("log_file", .absent)]

/-- What the layers of this example say of a name. The values of the home directory are the lowest
ones, and two of them are no values of their settings. -/
def layeredValues : String → Option Value :=
  layered layeredOverrides layeredHost.environment [("source_extension", .text ".el")]
    [("encoding", .text "cp1252")] [("encoding", .int 5), ("verbosity", .text "loud")]

/-- The layers of this host give values to settings only, and to no other names. -/
theorem mem_fieldNames_of_layeredValues (name : String) (h : (layeredValues name).isSome) :
    name ∈ fieldNames := by
  by_contra hname
  have hfile (table : Assoc Value) (hnames : ∀ other ∈ table.names, other ∈ fieldNames) :
      table.get? name = none :=
    Assoc.get?_eq_none_iff.mpr fun hmem => hname (hnames name hmem)
  have hoverride : overrideValue layeredOverrides name = none := by
    simp only [fieldNames, List.mem_cons, List.not_mem_nil, or_false, not_or] at hname
    by_cases hverbose : name = "verbose"
    · simp [overrideValue, hverbose]
    · simp [overrideValue, layeredOverrides, Assoc.get?_cons, hname, hverbose, hfile [] (by decide)]
  have hnone : layeredValues name = none := by
    rw [layeredValues, layered, hoverride, environmentValue, if_neg hname, hfile _ (by decide),
      hfile _ (by decide), hfile _ (by decide)]
    rfl
  simp [hnone] at h

/-- Each setting admits the value that the layers of this host give it. The encoding is one that is
not built in, but is in the registry. -/
theorem admits_layeredValues : ∀ name ∈ fieldNames, ∀ value,
    (layeredValues name).or (default.valueOf name) = some value →
      Admits layeredHost.codecs name value := by
  rw [forall_fieldNames]
  refine ⟨?_, ?_, ?_, ?_, ?_⟩
  · rintro value ⟨⟩
    exact ⟨".el", rfl, by decide, by decide⟩
  · rintro value ⟨⟩
    exact ⟨"cp1252", rfl, by decide, _, rfl⟩
  · rintro value ⟨⟩
    exact ⟨true, rfl⟩
  · rintro value ⟨⟩
    exact ⟨.verbose, rfl⟩
  · rintro value ⟨⟩
    exact .inl rfl

/-- The values of the home directory that no setting admits are replaced by those of the working
directory and of a switch, so loading succeeds; with a name that no setting has it does not. -/
theorem load_ok_of_layeredHost :
    (∃ settings,
      load layeredHost (some "/w/x.toml") layeredOverrides = .ok settings ∧
      settings.valueOf "encoding" = some (.text "cp1252") ∧
      settings.valueOf "verbosity" = some (.text "verbose") ∧
      settings.valueOf "source_extension" = some (.text ".el") ∧
      settings.valueOf "follow_symlinks" = some (.flag true) ∧
      settings.valueOf "log_file" = some .absent) ∧
    ∃ error, load layeredHost (some "/w/x.toml") [("colour", .flag true)] = .error (.error error) ∧
      error.label = "ConfigurationError" := by
  have hswitch : SwitchIsRead layeredHost.environment := by
    intro text htext
    have hget : layeredHost.environment.get? (variableOf "follow_symlinks") = some "Yes" := by
      decide +kernel
    obtain rfl := Option.some.inj (hget.symm.trans htext)
    decide +kernel
  constructor
  · obtain ⟨hiff, hvalues, -⟩ := load_ok_iff_and_values fileTables_layeredHost hswitch
      (by decide : layeredOverrides.names.Nodup) (by decide)
    obtain ⟨settings, hload⟩ := hiff.mpr ⟨mem_fieldNames_of_layeredValues, admits_layeredValues⟩
    obtain ⟨hfields, -⟩ := hvalues settings hload
    exact ⟨settings, hload, hfields "encoding" (by decide), hfields "verbosity" (by decide),
      hfields "source_extension" (by decide), hfields "follow_symlinks" (by decide),
      hfields "log_file" (by decide)⟩
  · obtain ⟨-, -, hunknown, -⟩ := load_ok_iff_and_values fileTables_layeredHost hswitch
      (by decide : (Assoc.names [("colour", Value.flag true)]).Nodup) (by decide)
    exact hunknown "colour" (by decide) (by decide)

end ElmReach.Settings
