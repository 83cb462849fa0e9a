import ElmReach.CommandLine.Run
import ElmReach.Proofs.BuildFaults
import ElmReach.Proofs.OpenedLog
import ElmReach.Proofs.SettingsFaults
import ElmReach.Proofs.UnusedFiles

/-!
# Faults that escape a run

A run loads its settings, opens its log, builds the project and analyses it. It comes to a report or
to an error that is reported, unless one of these stages ends with a fault, and the faults of the
stages are all listed: what the registry of encodings fails with, a path that cannot be asked for, a
link that leads to itself at the root, a walk that is nested too deep, and others. A settings file
whose bytes are no text is one of them: the command stops without a report and without an error.
-/

namespace ElmReach

namespace Analysis

variable {host : Host} {settings : Settings} {config : ProjectConfig} {project : Project}
  {past : List LogRecord} {fault : Fault}

end Analysis

namespace CommandLine

open Report

variable {host : Host} {file : Option String} {overrides : Assoc Value} {config : ProjectConfig}
  {fault : Fault}

/-- The exit code and the blocks with which a run ends that no fault has stopped: those of a report,
or that of an error. -/
def ending (json : Bool) :
    Except Failure (Settings × Project × Analysis) → Except Fault (Nat × List Block)
  | .ok (settings, project, analysis) =>
    .ok (0, if json then [.plain (unusedJson project analysis).render]
      else unusedBlocks (settings.verbosity = .verbose) project analysis)
  | .error (.error error) => .ok (1, [errorBlock json error])
  | .error (.fault fault) => .error fault

end CommandLine

end ElmReach
