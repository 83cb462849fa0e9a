import ElmReach.Proofs.BuildStages
import ElmReach.Proofs.PlainPath
import ElmReach.Proofs.SourceFaults

/-!
# Faults of a build

A build reports paths below its root that cannot be resolved, unless the way to them runs into a
name with the character of code zero. It does not report a root that cannot be resolved, nor what
ends the reading of the entry module with a fault, nor a scan of the source directories that is
nested too deep.
-/

namespace ElmReach

/-- A character other than the separator stands in a piece of the text. -/
theorem Text.exists_mem_splitAt {separator c : Char} {text : List Char} (hc : c ∈ text)
    (hne : c ≠ separator) : ∃ piece ∈ splitAt separator text, c ∈ piece := by
  induction text with
  | nil => exact absurd hc List.not_mem_nil
  | cons d rest ih =>
    rw [splitAt]
    split
    · next hd =>
      obtain ⟨piece, hpiece, hmem⟩ := ih (List.mem_of_ne_of_mem (hd ▸ hne) hc)
      exact ⟨piece, List.mem_cons_of_mem _ hpiece, hmem⟩
    · cases hpieces : splitAt separator rest with
      | nil =>
        rcases List.mem_cons.mp hc with rfl | hrest
        · exact ⟨[c], by simp [consFirst], by simp⟩
        · obtain ⟨piece, hpiece, -⟩ := ih hrest
          exact absurd (hpieces ▸ hpiece) List.not_mem_nil
      | cons first others =>
        rw [consFirst]
        rcases List.mem_cons.mp hc with rfl | hrest
        · exact ⟨c :: first, by simp, by simp⟩
        · obtain ⟨piece, hpiece, hmem⟩ := ih hrest
          rcases List.mem_cons.mp (hpieces ▸ hpiece) with rfl | hothers
          · exact ⟨d :: piece, by simp, List.mem_cons_of_mem _ hmem⟩
          · exact ⟨piece, List.mem_cons_of_mem _ hothers, hmem⟩

namespace Path

/-- A part of a path is still there when the path is followed from another one, whether or not the
path is anchored. -/
theorem mem_parts_append {path next : Path} {part : String} (h : part ∈ next.parts) :
    part ∈ (path.append next).parts := by
  unfold append
  split
  · exact List.mem_append_right _ h
  · exact h

/-- The parts of a path below a root are pieces of texts, without slashes and dots of their own.
Nothing is said about the character of code zero, which a piece can hold. -/
theorem isPiece_of_mem_append {root : Path} {text : String} (hroot : root.IsSound) :
    ∀ part ∈ (root.append (.ofString text)).parts, IsPiece part := by
  unfold append
  split
  · intro part hpart
    exact (List.mem_append.mp hpart).elim (fun habove => (hroot part habove).isPiece)
      isPiece_of_mem_ofString
  · exact fun part => isPiece_of_mem_ofString

/-- The character of code zero is kept when a path is read and followed from another one. -/
theorem null_mem_render_append {root : Path} {text : String} (h : '\x00' ∈ text.toList) :
    '\x00' ∈ (root.append (.ofString text)).render.toList := by
  obtain ⟨piece, hpiece, hmem⟩ := Text.exists_mem_splitAt h (by decide : '\x00' ≠ '/')
  have hkeep : piece ≠ [] ∧ piece ≠ ['.'] := by
    constructor
    · exact List.ne_nil_of_mem hmem
    · rintro rfl
      exact absurd (List.mem_singleton.mp hmem) (by decide)
  have hpart : String.ofList piece ∈ (ofString text).parts :=
    List.mem_map.mpr ⟨piece, List.mem_filter.mpr ⟨hpiece, by simpa using hkeep⟩, rfl⟩
  exact mem_render (mem_parts_append hpart) (by simpa using hmem)

end Path

/-- The fields that the kind of a configuration asks for are there: an entry file for an
application, exposed modules for a package. A build looks at this first. -/
def ProjectConfig.IsComplete (config : ProjectConfig) : Prop :=
  (config.kind = some "application" ∧ config.entryFile.getD "" ≠ "") ∨
    config.kind = some "package" ∧ config.exposed.names ≠ []

namespace Project

variable {host : Host} {settings : Settings} {config : ProjectConfig} {past : List LogRecord}
  {root : Path} {path : String} {fault : Fault}

/-- The way to a path below the root runs into a name that no file system can be asked for. -/
def NullFault (host : Host) (root : Path) (path : String) (fault : Fault) : Prop :=
  ∃ place, fault = .file .nullByte place ∧
    host.resolve (root.append (.ofString path)).render = .error fault

/-- Such a name comes from the path itself, since neither the root nor the links of a file system
hold one. -/
theorem NullFault.null_mem (hhost : host.IsSound) (hroot : root.IsSound)
    (h : NullFault host root path fault) : '\x00' ∈ path.toList := by
  obtain ⟨place, rfl, hfault⟩ := h
  by_contra hnull
  have hrender := (hroot.append (Path.isSound_ofString hnull)).null_notMem_render
  exact FileTree.resolve_ne_nullByte hhost.tree hhost.here hrender place hfault

/-- Without links on its way, every path that holds one is such a path. Behind a link that leads
back to itself, a path is not looked at any more. -/
theorem exists_nullFault (hroot : root.IsSound)
    (hplain : host.tree.IsPlain (root.append (.ofString path))) (h : '\x00' ∈ path.toList) :
    ∃ fault, NullFault host root path fault := by
  obtain ⟨place, hfault⟩ := FileTree.exists_resolve_eq_nullByte
    (Path.isPiece_of_mem_append hroot) hplain (Path.null_mem_render_append h) host.here
  exact ⟨_, place, rfl, hfault⟩

/-- Resolving a path below the root ends with a fault only at a name that no file system can be
asked for. Every other failure is reported as an error of the path. -/
theorem resolveIn_eq_fault_iff :
    resolveIn host root path = .error (.fault fault) ↔ NullFault host root path fault := by
  constructor
  · intro h
    unfold resolveIn at h
    split at h
    · cases h
    · next place hplace =>
      obtain rfl := Failure.fault.inj (Except.error.inj h)
      exact ⟨place, rfl, hplace⟩
    · cases h
  · rintro ⟨place, rfl, hplace⟩
    rw [resolveIn, hplace]

/-- All exclusions have texts exactly if each of them can be resolved. -/
theorem exists_resolveAll_eq_ok_iff {paths : List String} :
    (∃ texts, resolveAll host root paths = .ok texts) ↔
      ∀ path ∈ paths, ∃ found, resolveIn host root path = .ok found := by
  have hmap (path : String) : (∃ text, (resolveIn host root path).map Path.render = .ok text) ↔
      ∃ found, resolveIn host root path = .ok found := by
    cases resolveIn host root path <;> simp [Except.map]
  unfold resolveAll
  constructor
  · rintro ⟨texts, h⟩ path hpath
    exact (hmap path).mp (Results.exists_eq_ok_of_mapM h path hpath)
  · exact fun h => Results.exists_mapM_eq_ok fun path hpath => (hmap path).mpr (h path hpath)

/-- The build has its root and its source directories, and `records` are reported by then. -/
structure FindsDirs (host : Host) (config : ProjectConfig) (past : List LogRecord) (root : Path)
    (directories : List String) (records : List LogRecord) : Prop where
  complete : config.IsComplete
  resolved : resolveRoot host config.root = .ok root
  found : sourceDirsOf host root config.sourceDirs past = { records, outcome := .ok directories }

section Stages

variable (hhost : host.IsSound)

include hhost

/-- What a path stands for is anchored, so its text starts with a slash. -/
theorem isAnchored_of_resolve {path : String} {found : Path}
    (h : host.resolve path = .ok found) : Path.isAnchored found.render = true :=
  Path.isAnchored_render (FileTree.isProper_of_resolve hhost.here h).1

/-- Source directories are anchored and can be asked for. -/
theorem FindsDirs.isAnchored {directories : List String} {records : List LogRecord}
    (h : FindsDirs host config past root directories records) :
    ∀ directory ∈ directories,
      Path.isAnchored directory = true ∧ '\x00' ∉ directory.toList := by
  intro directory hdirectory
  have haccepts := ((mem_sourceDirsOf (congrArg Trace.outcome h.found)).2 directory).mp hdirectory
  refine ⟨?_, null_notMem_of_acceptsDir hhost haccepts⟩
  obtain ⟨declared, -, found, hwithin, rfl⟩ := haccepts
  exact isAnchored_of_resolve hhost
    (resolveIn_eq_ok_iff.mp (pathWithin?_eq_some_iff.mp hwithin).1)

end Stages

end Project

end ElmReach
