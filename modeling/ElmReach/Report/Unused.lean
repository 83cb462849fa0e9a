import ElmReach.Analysis
import ElmReach.Report.Block
import ElmReach.Text.Order

/-!
# The report of unused modules
-/

namespace ElmReach.Report

/-- A path relative to the root if it lies below it, as it is otherwise. -/
def displayPath (path root : String) : String :=
  match (Path.ofString path).relativeTo? (.ofString root) with
  | some relative => relative.render
  | none => path

/-- The report as JSON. -/
def unusedJson (project : Project) (analysis : Analysis) : Json :=
  .object
    [("project",
        .object
          [("kind", .text project.kindName), ("root", .text project.root),
            ("roots", .list (analysis.roots.map .text))]),
      ("summary",
        .object
          [("total_files", .number project.files.length),
            ("total_modules", .number analysis.graph.nodes.length),
            ("reachable_modules", .number analysis.reachable.length),
            ("unused_files", .number analysis.unused.length)]),
      ("unused",
        .list
          (analysis.unusedModules.map fun (file, name) =>
            .object [("file", .text file), ("module", .text name)]))]

/-- The depth of a reachable name, as it is shown: a root that no file declares has none. -/
def depthText : Option Nat → String
  | none => "-1"
  | some depth => toString depth

/-- The reachable names with their depths, by depth and then by name; names without a depth come
first. -/
def byDepth (analysis : Analysis) : List (String × Option Nat) :=
  let depths := ImportGraph.depths analysis.graph.adjacency analysis.roots
  let rank (depth : Option Nat) : Nat := (depth.map (· + 1)).getD 0
  let named := (Text.sorted analysis.reachable).map fun name => (name, (depths.get? name).join)
  named.mergeSort fun a b => rank a.2 ≤ rank b.2

/-- The table of reachable names. -/
def reachableTable (analysis : Analysis) : Table where
  title := "Reachable modules"
  columns := [{ header := "Module" }, { header := "Depth", side := .right }]
  rows := (byDepth analysis).map fun (name, depth) => [name, depthText depth]

/-- The table of unused files. -/
def unusedTable (project : Project) (analysis : Analysis) : Table where
  title := "Unused modules"
  columns := [{ header := "File" }, { header := "Module" }]
  rows := analysis.unusedModules.map fun (file, name) => [displayPath file project.root, name]

/-- How many files there are, and what is reachable. -/
def summaryLine (project : Project) (analysis : Analysis) : String :=
  "  [bold]" ++ toString project.files.length ++ "[/bold] source files, [bold]" ++
    toString analysis.reachable.length ++ "[/bold] modules reachable from " ++
    ", ".intercalate analysis.roots

/-- The report for reading. -/
def unusedBlocks (verbose : Bool) (project : Project) (analysis : Analysis) : List Block :=
  let blank : Block := .plain ""
  let reachable := if verbose then [.table (reachableTable analysis), blank] else []
  let unused : Block :=
    if analysis.unused.isEmpty then .marked "[green]No unused modules found.[/green]"
    else .table (unusedTable project analysis)
  [blank, .marked (summaryLine project analysis), blank] ++ reachable ++ [unused]

end ElmReach.Report
