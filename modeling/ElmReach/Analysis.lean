import ElmReach.ImportGraph.Basic
import ElmReach.ImportGraph.Reach
import ElmReach.Project.Basic
import ElmReach.Settings.Basic

/-!
# Analysis of a project

All source files of a project are loaded as modules, the graph of their imports is built, and the
files whose module cannot be reached from the project's roots are unused. A file that cannot be
loaded stops the analysis.
-/

namespace ElmReach

/-- How the module of a path is obtained. -/
abbrev Loader := String → Traced SourceModule

/-- The outcome of an analysis. -/
structure Analysis where
  graph : ImportGraph
  /-- The module names that the analysis started from. -/
  roots : List String
  /-- The reachable module names, each one once. -/
  reachable : List String
  /-- The files of modules that are not reachable, in the order of the project's files. -/
  unused : List String
  deriving DecidableEq, Repr

namespace Loader

/-- Load modules from the files of a host. -/
def ofHost (host : Host) (settings : Settings) (project : Project) : Loader := fun path => do
  let sourceRoot ← Traced.ofOutcome ((project.sourceDirFor path).mapError .fault)
  SourceModule.read host settings.encoding path sourceRoot

/-- Load modules from texts that are at hand. -/
def ofTexts (texts : Assoc String) (project : Project) : Loader := fun path =>
  match texts.get? path with
  | none => .fail (.unreadableFile path "not loaded")
  | some text => do
    let sourceRoot ← Traced.ofOutcome ((project.sourceDirFor path).mapError .fault)
    SourceModule.ofContent path text.toList sourceRoot

end Loader

namespace Analysis

/-- The modules of the graph: those of the files and, if its file is not among them, the entry
module. -/
def graphModules (project : Project) (loaded : List SourceModule) :
    Traced (List SourceModule) :=
  match project.shape with
  | .package _ => pure loaded
  | .application entry =>
    if entry.path ∈ project.files then pure loaded
    else do
      .say Level.debug Logger.reachability
        ("Entry file " ++ entry.path ++ " lies outside the source directories")
      return loaded ++ [entry]

/-- The exposed modules of a package that no file declares. -/
def missing (project : Project) (graph : ImportGraph) : List String :=
  match project.shape with
  | .package exposed => exposed.filter (· ∉ graph.names)
  | .application _ => []

/-- Analyse a project. -/
def run (project : Project) (load : Loader) : Traced Analysis := do
  let loaded ← Traced.forEach project.files load
  let graph ← ImportGraph.build (← graphModules project loaded)
  let absent := missing project graph
  if !absent.isEmpty then .fail (.exposedWithoutSource absent)
  else
    let reachable := ImportGraph.reachable graph.adjacency project.roots
    let unused := (loaded.filter (·.name ∉ reachable)).map SourceModule.path
    .say Level.info Logger.reachability
      ("Reachability: " ++ toString reachable.length ++ " of " ++ toString graph.nodes.length ++
        " modules reachable, " ++ toString unused.length ++ " unused files")
    return { graph, roots := project.roots, reachable, unused }

/-- The module name of each unused file, given the files of each module name. A file that no name
has gets an empty one. -/
def namesOf (files : Assoc (List String)) (unused : List String) : Assoc String :=
  let byFile : Assoc String :=
    .ofEntries (files.flatMap fun (name, paths) => paths.map fun path => (path, name))
  .ofEntries (unused.map fun path => (path, (byFile.get? path).getD ""))

/-- The unused files with the names of their modules. -/
def unusedModules (analysis : Analysis) : Assoc String :=
  namesOf analysis.graph.files analysis.unused

end Analysis

end ElmReach
