import ElmReach.Value
import ElmReach.Text.Blank

/-!
# Project configurations

What is said about a project before any file is looked at. Exposed modules are one name, a list of
names, or groups of names under categories.
-/

namespace ElmReach

/-- One name or a list of names. -/
inductive NameGroup where
  | one (name : String)
  | many (names : List String)
  deriving DecidableEq, Repr

namespace NameGroup

/-- The names of a group. -/
def names : NameGroup → List String
  | .one name => [name]
  | .many names => names

/-- The group as a value. -/
def toValue : NameGroup → Value
  | .one name => .text name
  | .many names => .list (names.map .text)

end NameGroup

/-- The exposed modules of a package, as they are written. -/
inductive ExposedModules where
  | ungrouped (listed : NameGroup)
  | categories (groups : Assoc NameGroup)
  deriving DecidableEq, Repr

namespace ExposedModules

/-- The names as they are written, in order. -/
def written : ExposedModules → List String
  | .ungrouped listed => listed.names
  | .categories groups => groups.flatMap fun (_, group) => group.names

/-- The exposed names: trimmed, without blank ones, each one once. -/
def names (exposed : ExposedModules) : List String :=
  ((exposed.written.map Text.trimmed).filter (· ≠ "")).eraseDups

/-- The exposed modules as a value. -/
def toValue : ExposedModules → Value
  | .ungrouped listed => listed.toValue
  | .categories groups => .table (groups.map fun (category, group) => (category, group.toValue))

end ExposedModules

/-- What is said about a project. -/
structure ProjectConfig where
  /-- The name of its kind, if that is known. -/
  kind : Option String := none
  /-- The project root; the paths below are relative to it. -/
  root : String := "."
  sourceDirs : List String := ["src"]
  excludeDirs : List String := []
  excludeFiles : List String := []
  /-- The entry file of an application. -/
  entryFile : Option String := none
  /-- The exposed modules of a package. -/
  exposed : ExposedModules := .ungrouped (.many [])
  deriving DecidableEq, Repr

end ElmReach
