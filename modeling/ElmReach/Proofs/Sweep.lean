import ElmReach.Proofs.UnusedFiles
import Mathlib.Tactic.Common

/-!
# Sweeping a project

Taking the unused files out of a project leaves the chains of imports as they are: a file that a
chain runs through is not unused, and all files that share a reached name stay. So the swept project
can be analysed again, with the same reachable names and with nothing unused.
-/

namespace ElmReach

/-- The project without some of its files. It is what is left when these files are deleted. -/
def Project.without (project : Project) (dropped : List String) : Project :=
  { project with files := project.files.filter (· ∉ dropped) }

namespace Analysis

variable {project : Project} {load : Loader} {modules : String → Except Failure SourceModule}
  {value : String → SourceModule} {analysis : Analysis}

/-- The loader agrees with an entry module whose file is a file of the project about its name. -/
def EntryAgrees (project : Project) (modules : String → Except Failure SourceModule) : Prop :=
  ∀ entry, project.shape = .application entry → entry.path ∈ project.files →
    ∃ source, modules entry.path = .ok source ∧ source.name = entry.name

section Swept

variable (hload : load.Maps modules)
  (hvalue : ∀ path ∈ project.files, modules path = .ok (value path))
  (hconclude : conclude project (project.files.map value) = .ok analysis)

include hload hvalue hconclude

/-- Sweeping leaves the files whose modules are reachable. -/
theorem mem_files_without {path : String} :
    path ∈ (project.without analysis.unused).files ↔
      path ∈ project.files ∧ (value path).name ∈ analysis.reachable := by
  obtain ⟨-, -, hunused⟩ := conclude_eq_ok hconclude
  have hcarries (path : String) (hpath : path ∈ project.files) : (value path).path = path :=
    hload.carries path _ (hvalue path hpath)
  simp only [Project.without, List.mem_filter, decide_eq_true_eq]
  refine and_congr_right fun hpath => ?_
  rw [hunused, ← not_iff_not, not_not]
  simp only [List.mem_map, List.mem_filter, decide_eq_true_eq]
  constructor
  · rintro ⟨source, ⟨⟨other, hother, rfl⟩, hname⟩, hsame⟩
    rw [hcarries other hother] at hsame
    rwa [← hsame]
  · exact fun hname => ⟨value path, ⟨⟨path, hpath, rfl⟩, hname⟩, hcarries path hpath⟩

/-- A file stays if a chain of imports leads to the name of its module. -/
theorem mem_files_without_of_chain {path : String} {source : SourceModule}
    (hpath : path ∈ project.files) (hsource : modules path = .ok source)
    (hchain : ImportChain (project.IsModule modules) project.roots source.name) :
    path ∈ (project.without analysis.unused).files := by
  have hsame : value path = source := by
    rw [hvalue path hpath] at hsource
    exact Except.ok.inj hsource
  rw [mem_files_without hload hvalue hconclude, hsame,
    mem_reachable_iff_of_conclude hvalue hconclude]
  exact ⟨hpath, hchain⟩

/-- Sweeping keeps every chain of imports and adds none. A chain runs through reachable modules
only, and their files stay. -/
theorem importChain_without_iff (hentry : EntryAgrees project modules) {name : String} :
    ImportChain ((project.without analysis.unused).IsModule modules) project.roots name ↔
      ImportChain (project.IsModule modules) project.roots name := by
  constructor
  · intro h
    refine h.mono fun source hsource _ => ?_
    rcases hsource with ⟨path, hpath, hsource⟩ | ⟨hshape, houtside⟩
    · exact .inl ⟨path, ((mem_files_without hload hvalue hconclude).mp hpath).1, hsource⟩
    · refine .inr ⟨hshape, fun hinside => houtside ?_⟩
      -- The entry file stays, because the root is the name of its module.
      obtain ⟨loaded, hloaded, hname⟩ := hentry source hshape hinside
      have hroot : loaded.name ∈ project.roots := by
        rw [hname, Project.roots, show project.shape = .application source from hshape]
        exact List.mem_singleton_self _
      exact mem_files_without_of_chain hload hvalue hconclude hinside hloaded (.root hroot)
  · intro h
    refine h.mono fun source hsource hchain => ?_
    rcases hsource with ⟨path, hpath, hsource⟩ | ⟨hshape, houtside⟩
    · have hstays := mem_files_without_of_chain hload hvalue hconclude hpath hsource hchain
      exact .inl ⟨path, hstays, hsource⟩
    · refine .inr ⟨hshape, fun hinside => houtside ?_⟩
      exact ((mem_files_without hload hvalue hconclude).mp hinside).1

/-- Sweeping leaves a file for every exposed module, because exposed modules are roots. -/
theorem declares_without {exposed : List String} {name : String}
    (hshape : project.shape = .package exposed) (hname : name ∈ exposed)
    (hdeclares : project.Declares modules name) :
    (project.without analysis.unused).Declares modules name := by
  obtain ⟨path, hpath, source, hsource, rfl⟩ := hdeclares
  have hroot : source.name ∈ project.roots := by
    rw [Project.roots, hshape]
    exact hname
  have hstays := mem_files_without_of_chain hload hvalue hconclude hpath hsource (.root hroot)
  exact ⟨path, hstays, source, hsource, rfl⟩

end Swept

/-- The swept project can be analysed again. The reachable names are the same, and no file is
unused. -/
theorem run_without_unused (hload : load.Maps modules) (hentry : EntryAgrees project modules)
    {past : List LogRecord} (hok : (run project load past).outcome = .ok analysis)
    (later : List LogRecord) :
    ∃ again, (run (project.without analysis.unused) load later).outcome = .ok again ∧
      (∀ name, name ∈ again.reachable ↔ name ∈ analysis.reachable) ∧ again.unused = [] := by
  obtain ⟨value, hvalue, hconclude⟩ := exists_value_of_run_ok hload hok
  have hstays (path : String) (hpath : path ∈ (project.without analysis.unused).files) :=
    (mem_files_without hload hvalue hconclude).mp hpath
  have hvalue' (path : String) (hpath : path ∈ (project.without analysis.unused).files) :
      modules path = .ok (value path) := hvalue path (hstays path hpath).1
  have hdeclared := (missing_eq_nil_iff hvalue).mp (conclude_eq_ok hconclude).1
  obtain ⟨again, hagain⟩ := exists_conclude_eq_ok ((missing_eq_nil_iff hvalue').mpr
    fun exposed hshape name hname => declares_without hload hvalue hconclude hshape hname
      (hdeclared exposed hshape name hname))
  have hreachable (name : String) : name ∈ again.reachable ↔ name ∈ analysis.reachable := by
    rw [mem_reachable_iff_of_conclude hvalue' hagain,
      mem_reachable_iff_of_conclude hvalue hconclude]
    exact importChain_without_iff hload hvalue hconclude hentry
  refine ⟨again, ?_, hreachable, ?_⟩
  · rw [outcome_run_of_loaded hload hvalue', hagain]
  · rw [(conclude_eq_ok hagain).2.2, List.map_eq_nil_iff, List.filter_eq_nil_iff]
    intro source hsource
    obtain ⟨path, hpath, rfl⟩ := List.mem_map.mp hsource
    simpa [hreachable] using (hstays path hpath).2

/-- An application whose entry file is among its three files can be swept. -/
theorem run_without_unused_of_application :
    ∃ analysis again,
      (run (threeFiles (.application ⟨"A", "A", []⟩)) (.ofModules threeModules) []).outcome =
        .ok analysis ∧
      (run ((threeFiles (.application ⟨"A", "A", []⟩)).without analysis.unused)
        (.ofModules threeModules) []).outcome = .ok again ∧
      (∀ name, name ∈ again.reachable ↔ name ∈ analysis.reachable) ∧ again.unused = [] := by
  have hentry : EntryAgrees (threeFiles (.application ⟨"A", "A", []⟩)) threeModules := by
    rintro entry ⟨rfl⟩ -
    exact ⟨_, rfl, rfl⟩
  obtain ⟨analysis, hok⟩ : ∃ analysis,
      (run (threeFiles (.application ⟨"A", "A", []⟩)) (.ofModules threeModules) []).outcome =
        .ok analysis := ⟨_, rfl⟩
  obtain ⟨again, hagain⟩ := run_without_unused maps_threeModules hentry hok []
  exact ⟨analysis, again, hok, hagain⟩

end Analysis

end ElmReach
