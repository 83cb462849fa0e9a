import ElmReach.CommandLine.Command
import ElmReach.Project.Build
import ElmReach.Report.Outline
import ElmReach.Report.Unused
import ElmReach.Settings.Layers

/-!
# Running commands

A run prints its report and ends with an exit code: 0 for a report, 1 for an error or a fault, 2
for a command line that is used wrongly. It says which log records it made and where they go.
-/

namespace ElmReach.CommandLine

open Report

/-- What a run has done. -/
structure Outcome where
  exit : Nat
  /-- What it prints. -/
  lines : List Line
  /-- The fault that stopped it. -/
  fault : Option Fault
  /-- All log records, in order. -/
  records : List LogRecord
  /-- The host, with the log opened. -/
  host : Host

namespace Outcome

/-- A run that prints something and logs nothing. -/
def printing (host : Host) (exit : Nat) (blocks : List Block) : Outcome :=
  let (lines, fault) := Block.print blocks
  { exit := if fault.isSome then 1 else exit, lines, fault, records := [], host }

/-- A run whose command line is used wrongly. -/
def misuse (host : Host) : Outcome :=
  printing host 2 []

/-- A run that stops with a failure. -/
def failed (host : Host) (json : Bool) : Failure → Outcome
  | .error error => printing host 1 [errorBlock json error]
  | .fault fault => { printing host 1 [] with fault := some fault }

/-- The log records that the run lets pass. -/
def log (outcome : Outcome) : List LogRecord :=
  outcome.host.sink.pass outcome.records

/-- The file system after the run, with the log written. -/
def treeAfter (outcome : Outcome) : FileTree :=
  outcome.host.treeAfter outcome.records

end Outcome

/-- The version of the tool. -/
def versionText : String := "elmsweep 0.1.0"

/-- How the tool is used. -/
def helpText : String :=
  "Usage: elmsweep [--version] unused [PATH] [OPTIONS]\n       elmsweep outline FILE [OPTIONS]"

/-- What is said of a format that the tool does not know; tags in its name count as such. -/
def unknownFormat (format : String) : Block :=
  errorLine ("unknown format '" ++ format ++ "' (use rich or json)")

/-- Whether the tool knows a format. -/
def isFormat (format : String) : Bool :=
  format = "rich" || format = "json"

/-- Whether a path on the command line leads to a directory. -/
def isDirectory (host : Host) (path : Path) : Bool :=
  match host.tree.locate host.here path.render with
  | .ok { entry := .directory, .. } => true
  | _ => false

/-- Whether a path on the command line leads to a file. -/
def isFile (host : Host) (path : Path) : Bool :=
  match host.tree.locate host.here path.render with
  | .ok { entry := .file _, .. } => true
  | _ => false

/-- The configuration of the project that a request is about. -/
def UnusedRequest.projectConfig (request : UnusedRequest) : ProjectConfig where
  kind :=
    if request.entryFile.any (· ≠ "") then some "application"
    else if request.exposed.isEmpty then none
    else some "package"
  root := request.path.render
  sourceDirs := if request.sourceDirs.isEmpty then ["src"] else request.sourceDirs
  excludeDirs := request.excludeDirs
  excludeFiles := request.excludeFiles
  entryFile := request.entryFile
  exposed := .ungrouped (.many request.exposed)

/-- The settings that a request overrides. -/
def UnusedRequest.overrides (request : UnusedRequest) : Assoc Value :=
  (if request.verbose then [("verbose", .flag true)] else []) ++
    if request.quiet then [("quiet", .flag true)] else []

/-- Build and analyse the project of a request. -/
def UnusedRequest.analyse (request : UnusedRequest) (host : Host) (settings : Settings) :
    Traced (Project × Analysis) := do
  let project ← Project.build host settings request.projectConfig
  let analysis ← Analysis.run project (Loader.ofHost host settings project)
  return (project, analysis)

/-- Report the unused modules of the project of a request whose paths exist. -/
def reportUnused (host : Host) (request : UnusedRequest) : Outcome :=
  let json := request.format = "json"
  if !isFormat request.format then .printing host 1 [unknownFormat request.format]
  else if request.entryFile.any (· ≠ "") && !request.exposed.isEmpty then
    .printing host 1
      [errorLine
        "use either --entry-file (application) or --exposed-module (package), not both"]
  else
    match Settings.load host (request.config.map Path.render) request.overrides with
    | .error failure => .failed host json failure
    | .ok settings =>
      match host.openLog settings.verbosity.level settings.logFile with
      | .error fault => .failed host json (.fault fault)
      | .ok logging =>
        let trace := (request.analyse logging settings).run
        let base : Outcome :=
          match trace.outcome with
          | .error failure => .failed logging json failure
          | .ok (project, analysis) =>
            .printing logging 0
              (if json then [.plain (unusedJson project analysis).render]
              else unusedBlocks (settings.verbosity = .verbose) project analysis)
        { base with records := trace.records }

/-- Report the unused modules of a project. Its root must be a directory, and a settings file that
is asked for must be a file. -/
def runUnused (host : Host) (request : UnusedRequest) : Outcome :=
  if isDirectory host request.path && request.config.all (isFile host) then
    reportUnused host request
  else .misuse host

/-- Show the outline of a source file that is no directory. -/
def showOutline (host : Host) (request : OutlineRequest) : Outcome :=
  let json := request.format = "json"
  if !isFormat request.format then .printing host 1 [unknownFormat request.format]
  else
    match SourceText.ofFile host.tree host.here .utf8 request.file.render with
    | .error failure => .failed host json failure
    | .ok source =>
      .printing host 0
        [if json then .plain (outlineJson request.comments source.content).render
        else .table (outlineTable request.comments source.path source.content)]

/-- Show the outline of a source file. -/
def runOutline (host : Host) (request : OutlineRequest) : Outcome :=
  if isDirectory host request.file then .misuse host else showOutline host request

/-- Run a command. -/
def Command.run (host : Host) : Command → Outcome
  | .version => .printing host 0 [.plain versionText]
  | .help => .printing host 0 [.plain helpText]
  | .unused request => runUnused host request
  | .outline request => runOutline host request

/-- Run a command line. -/
def run (host : Host) (arguments : List String) : Outcome :=
  match Command.read? arguments with
  | none => .misuse host
  | some command => command.run host

end ElmReach.CommandLine
