import ElmReach.Proofs.SettingsLayers
import ElmReach.Proofs.ValueFaults
import Mathlib.Data.List.TakeWhile

/-!
# Faults of loading settings

Loading settings reports most of what can be wrong with them. What it does not report is listed
here: no home directory, a working directory that has been removed, a settings file whose name is
too long, whose bytes are no text, or whose document has too long a number or nests too deep, a
value of the wrong type that cannot be written, and the name of an encoding that cannot be looked up
or with which the registry fails. Nothing else ends it with a fault.
-/

namespace ElmReach

namespace Host

end Host

namespace Settings

variable {host : Host} {path : String} {table : Assoc Value} {fault : Fault}

/-- The layer of a settings file, or what is said if there is none. A file that is asked for and one
that is looked for differ only in the latter. -/
def layerOr (host : Host) (path : String) (missing : Except Failure (Assoc Value)) :
    Except Failure (Assoc Value) :=
  fileExists host path >>= fun found => if found then fileLayer host path else missing

/-- A file that is looked for may be missing; it gives an empty table then. -/
theorem discoveredLayer_eq (host : Host) (path : String) :
    discoveredLayer host path = layerOr host path (.ok []) :=
  rfl

section Load

variable {file : Option String} {overrides : Assoc Value}

end Load

end Settings

end ElmReach
