import ElmReach.Host
import ElmReach.FileTree.Locate
import ElmReach.Settings.Basic
import ElmReach.Toml.Document

/-!
# Settings layers

Settings come in layers, each above the one before: the file in the home directory, the file in
the working directory, a file that is asked for, environment variables, and overrides. A value of a
higher layer replaces that of a lower one; only what is left in the end is checked.
-/

namespace ElmReach.Settings

/-- The table that a settings file gives: its table for this tool if it has one, all of it
otherwise. -/
def sectionOf (table : Assoc Value) : Assoc Value :=
  match table.get? "elmsweep" with
  | some (.table fields) => fields
  | _ => table

/-- What is said of a settings file that is malformed. The reader of such files has words of its own
for each mistake, with the line and the column; these are left out, and this text stands for them in
the error that is reported. -/
def malformed : String := "<toml>"

/-- The layer of a settings file that exists. -/
def fileLayer (host : Host) (path : String) : Except Failure (Assoc Value) :=
  match host.tree.read host.here path with
  | .error error => .error (.error (.unreadableSettings path (error.render path)))
  | .ok bytes =>
    match Utf8.decode bytes with
    | .error fault => .error (.fault (.undecodable fault))
    | .ok text =>
      match Toml.read host.room.values text with
      | .error .malformed => .error (.error (.unreadableSettings path malformed))
      | .error (.longNumeral digits) => .error (.fault (.longNumeral digits))
      | .error .tooDeep => .error (.fault .tooDeep)
      | .ok table => .ok (sectionOf table)

/-- Whether a settings file exists. -/
def fileExists (host : Host) (path : String) : Except Failure Bool :=
  match host.tree.exists? host.here path with
  | .ok found => .ok found
  | .error error => .error (.fault (.file error path))

/-- The layer of a settings file, empty if there is no such file. -/
def discoveredLayer (host : Host) (path : String) : Except Failure (Assoc Value) := do
  if ← fileExists host path then fileLayer host path else return []

/-- The layer of a settings file that is asked for. -/
def explicitLayer (host : Host) : Option String → Except Failure (Assoc Value)
  | none => .ok []
  | some file => do
    let path := Path.tidy file
    if ← fileExists host path then fileLayer host path
    else throw (.error (.missingSettings path))

/-- The switch that a word stands for, in any case of its letters. -/
def switch? (word : String) : Option Bool :=
  let lower := String.ofList (word.toList.map Char.toLower)
  if lower ∈ ["true", "1", "yes", "on"] then some true
  else if lower ∈ ["false", "0", "no", "off"] then some false
  else none

/-- The name of the environment variable of a setting. -/
def variableOf (field : String) : String :=
  "ELMSWEEP_" ++ String.ofList (field.toList.map Char.toUpper)

/-- The value of a setting that the environment gives. -/
def variableField (host : Host) (field : String) : Except Error (Assoc Value) :=
  match host.environment.get? (variableOf field) with
  | none => .ok []
  | some value =>
    if field = "follow_symlinks" then
      match switch? value with
      | some flag => .ok [(field, .flag flag)]
      | none =>
        .error
          (.invalidField (variableOf field) (.text value)
            ("expected true/false, got '" ++ value ++ "'"))
    else .ok [(field, .text value)]

/-- The layer of the environment variables. -/
def variableLayer (host : Host) : Except Error (Assoc Value) := do
  let layers ← fieldNames.mapM (variableField host)
  return layers.flatten

/-- Let a switch that is set choose a verbosity, and take the switch away. -/
def foldSwitch (name : String) (overrides : Assoc Value) : Assoc Value :=
  match overrides.get? name with
  | none => overrides
  | some value =>
    let chosen := if value.isSet then overrides.insert "verbosity" (.text name) else overrides
    chosen.filter (·.1 ≠ name)

/-- The layer of the overrides. The switches `verbose` and `quiet` choose a verbosity, the latter
with more weight, and absent values say nothing. -/
def overrideLayer (overrides : Assoc Value) : Assoc Value :=
  (foldSwitch "quiet" (foldSwitch "verbose" overrides)).filter fun (_, value) =>
    match value with
    | .absent => false
    | _ => true

/-- The path of the settings file in the home directory. -/
def homeFile (host : Host) : Except Fault String := do
  let home ← host.home
  return ((Path.ofString home).append (.ofString ".elmsweep.toml")).render

/-- The name of the settings file in the working directory. -/
def fileName : String := "elmsweep.toml"

/-- The path of the settings file in the working directory, which has a path only as long as it is
there. -/
def hereFile (host : Host) : Except Fault String :=
  if host.tree.entryAt? host.here = some .directory then
    .ok ((Path.ofString host.here.render).append (.ofString fileName)).render
  else .error .noWorkingDirectory

/-- All layers, merged. -/
def merged (host : Host) (file : Option String) (overrides : Assoc Value) :
    Except Failure (Assoc Value) := do
  let below ← discoveredLayer host (← (homeFile host).mapError .fault)
  let project ← discoveredLayer host (← (hereFile host).mapError .fault)
  let explicit ← explicitLayer host file
  let environment ← (variableLayer host).mapError .error
  return (((Assoc.merge [] below |>.merge project).merge explicit).merge environment).merge
    (overrideLayer overrides)

/-- The name that no override can have, since it is that of the settings file. -/
def fileArgument : String := "config_file"

/-- Load the settings of a run. -/
def load (host : Host) (file : Option String) (overrides : Assoc Value) :
    Except Failure Settings := do
  if fileArgument ∈ overrides.names then throw (.fault .repeatedConfigFile)
  match ofFields host.codecs (← merged host file overrides) with
  | .error (.fault (.unexpectedField name)) => throw (.error (.unexpectedSetting name))
  | outcome => outcome

end ElmReach.Settings
