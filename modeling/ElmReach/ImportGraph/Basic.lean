import ElmReach.SourceModule

/-!
# Import graphs

An import graph has a node for each module name, in order of first occurrence. Files that declare
the same name share a node, which holds the imports of all of them. An import of a name that is no
node is external.
-/

namespace ElmReach

/-- A module name with its imports and its files. -/
structure ModuleNode where
  name : String
  /-- The imported names, each one once. -/
  imports : List String
  /-- The files that declare the name, in the order in which they were added. -/
  files : List String
  deriving DecidableEq, Repr

/-- The import graph of some modules. -/
structure ImportGraph where
  nodes : List ModuleNode
  deriving DecidableEq, Repr

namespace ImportGraph

/-- The graph without modules. -/
def empty : ImportGraph := ⟨[]⟩

/-- The names of the nodes. -/
def names (graph : ImportGraph) : List String :=
  graph.nodes.map ModuleNode.name

/-- The imports of each node. -/
def adjacency (graph : ImportGraph) : Assoc (List String) :=
  graph.nodes.map fun node => (node.name, node.imports)

/-- The files of each node. -/
def files (graph : ImportGraph) : Assoc (List String) :=
  graph.nodes.map fun node => (node.name, node.files)

/-- The imports of a node that are no nodes. -/
def externalOf (graph : ImportGraph) (node : ModuleNode) : List String :=
  node.imports.filter (· ∉ graph.names)

/-- The external imports of the nodes that have some. -/
def external (graph : ImportGraph) : Assoc (List String) :=
  (graph.nodes.map fun node => (node.name, graph.externalOf node)).filter (!·.2.isEmpty)

/-- The imports that are nodes, each with the name that imports it. -/
def edges (graph : ImportGraph) : List (String × String) :=
  graph.nodes.flatMap fun node =>
    (node.imports.filter (· ∈ graph.names)).map fun target => (node.name, target)

/-- Add the names that are not there yet. -/
def addNames (known : List String) : List String → List String
  | [] => known
  | name :: rest => if name ∈ known then addNames known rest else addNames (known ++ [name]) rest

/-- Add a module to the node of its name, or as a new node. -/
def addToNodes (source : SourceModule) : List ModuleNode → List ModuleNode
  | [] =>
    [{ name := source.name
       imports := addNames [] source.importNames
       files := [source.path] }]
  | node :: rest =>
    if node.name = source.name then
      { node with
        imports := addNames node.imports source.importNames
        files := node.files ++ [source.path] } :: rest
    else node :: addToNodes source rest

/-- Add a module. -/
def add (graph : ImportGraph) (source : SourceModule) : ImportGraph :=
  ⟨addToNodes source graph.nodes⟩

/-- The warning for a module whose name another file declares. -/
def repeatedName (graph : ImportGraph) (source : SourceModule) : List LogRecord :=
  match graph.nodes.find? (·.name = source.name) with
  | none => []
  | some node =>
    [{ level := Level.warning
       logger := Logger.graph
       message :=
         "Module " ++ source.name ++ " is declared by more than one file: " ++
           node.files.headD "" ++ ", " ++ source.path }]

/-- Add modules one after the other, with the warnings for repeated names. -/
def addAll (graph : ImportGraph) : List SourceModule → List LogRecord × ImportGraph
  | [] => ([], graph)
  | source :: rest =>
    let (records, grown) := (graph.add source).addAll rest
    (graph.repeatedName source ++ records, grown)

/-- The graph of some modules, with its log. -/
def build (modules : List SourceModule) : Traced ImportGraph := do
  let (records, graph) := empty.addAll modules
  .sayAll records
  .say Level.debug Logger.graph
    ("Built dependency graph: " ++ toString graph.nodes.length ++ " modules, " ++
      toString graph.edges.length ++ " internal edges")
  return graph

end ImportGraph

end ElmReach
