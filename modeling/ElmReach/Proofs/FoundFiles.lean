import ElmReach.Proofs.DirectoryWalk

/-!
# The files that a scan finds

A file is found if a walk from one of the directories comes to the directory of the file, the file
has the extension, and neither the file nor its directory is excluded; the walk has to be able to
list every directory that it comes to, but not those of the other walks. Only two kinds of
directories stop a scan: one whose text no file system can be asked for, and one whose walk runs out
of room.
-/

namespace ElmReach.SourceScan

variable {scan : SourceScan} {host : Host} {past : List LogRecord} {start file : String}

/-- The scan takes the entry with this name in a directory: it is no directory to walk into, has the
extension, and neither it nor its directory is excluded. -/
structure Takes (scan : SourceScan) (host : Host) (directory name : String) : Prop where
  entry : ∃ entry, host.tree.HasEntry host.here directory name entry ∧ entry ≠ .directory ∧
    ¬ host.tree.IsDirectory host.here (Path.child directory name)
  extension : scan.extension.toList <:+ name.toList
  keepsDirectory : directory ∉ scan.excludeDirs.map Path.collapsed
  keepsFile : Path.child directory name ∉ scan.excludeFiles.map Path.collapsed

/-- The file stands at any depth below a directory, all of which can be walked, and is taken. -/
def Finds (scan : SourceScan) (host : Host) (start file : String) : Prop :=
  host.tree.Walkable host.here scan.followLinks start ∧
    ∃ directory name, host.tree.WalksTo host.here scan.followLinks start directory ∧
      scan.Takes host directory name ∧ file = Path.child directory name

/-- A file is not excluded if neither its directory nor the file itself is named, both collapsed. -/
theorem excludes_eq_false_iff {directory : String} :
    scan.excludes directory file = false ↔
      directory ∉ scan.excludeDirs.map Path.collapsed ∧
        file ∉ scan.excludeFiles.map Path.collapsed := by
  rw [excludes, Bool.or_eq_false_iff, decide_eq_false_iff_not, decide_eq_false_iff_not]

/-- The files of a walk are those of its visits with the extension, as far as they are not
excluded. -/
theorem mem_listed {visits : List FileTree.Visit}
    (h : scan.visits host start = .ok visits) :
    file ∈ scan.listed host start ↔
      ∃ visit ∈ visits, ∃ name ∈ visit.files, scan.extension.toList <:+ name.toList ∧
        scan.excludes visit.directory file = false ∧ file = Path.child visit.directory name := by
  rw [listed, h]
  constructor
  · intro hfile
    obtain ⟨⟨directory, _⟩, hkept, rfl⟩ := List.mem_map.mp hfile
    obtain ⟨hfound, hexcludes⟩ := List.mem_filter.mp hkept
    obtain ⟨visit, hvisit, hcandidate⟩ := List.mem_flatMap.mp hfound
    obtain ⟨name, hname, heq⟩ := List.mem_map.mp hcandidate
    obtain ⟨rfl, rfl⟩ := Prod.mk.inj heq
    obtain ⟨hname, hextension⟩ := List.mem_filter.mp hname
    exact ⟨visit, hvisit, name, hname, List.isSuffixOf_iff_suffix.mp hextension,
      by simpa using hexcludes, rfl⟩
  · rintro ⟨visit, hvisit, name, hname, hextension, hexcludes, rfl⟩
    refine List.mem_map.mpr ⟨(visit.directory, Path.child visit.directory name), ?_, rfl⟩
    refine List.mem_filter.mpr ⟨List.mem_flatMap.mpr ⟨visit, hvisit, ?_⟩, by simpa using hexcludes⟩
    refine List.mem_map.mpr ⟨name, List.mem_filter.mpr ⟨hname, ?_⟩, rfl⟩
    exact List.isSuffixOf_iff_suffix.mpr hextension

/-- A walk that has room enough has a result where every directory can be listed. -/
theorem exists_visits_eq_ok_iff_walkable (htree : host.tree.IsStorable)
    (hroom : ¬ scan.Overflows host start) :
    (∃ visits, scan.visits host start = .ok visits) ↔
      host.tree.Walkable host.here scan.followLinks start :=
  (FileTree.exists_visits_eq_ok_iff htree).trans (and_iff_left hroom)

/-- A walk that runs out of room comes to a directory as many steps away as there was room, and
where every directory can be listed, it runs out of room only then. -/
theorem overflows_iff_walksIn (htree : host.tree.IsStorable)
    (hwalkable : host.tree.Walkable host.here scan.followLinks start) :
    scan.Overflows host start ↔ ∃ directory,
      host.tree.WalksIn host.here scan.followLinks host.room.directories start directory :=
  FileTree.visits_eq_tooDeep_iff htree hwalkable

/-- What is listed below a directory is what is found there, unless the walk runs out of room. -/
theorem mem_listed_iff_finds (htree : host.tree.IsStorable) (hroom : ¬ scan.Overflows host start) :
    file ∈ scan.listed host start ↔ scan.Finds host start file := by
  rw [Finds, ← exists_visits_eq_ok_iff_walkable htree hroom]
  cases hvisits : scan.visits host start with
  | error fault => simp [listed, hvisits]
  | ok visits =>
    rw [mem_listed hvisits]
    constructor
    · rintro ⟨visit, hvisit, name, hname, hextension, hexcludes, rfl⟩
      obtain ⟨directory, there, left, hwalks, hlocate, rfl⟩ :=
        (FileTree.mem_visits_iff htree hvisits).mp hvisit
      have hentry := (FileTree.mem_files_visitOf_iff htree hlocate).mp hname
      obtain ⟨hdirectory, hfile⟩ := excludes_eq_false_iff.mp hexcludes
      exact ⟨⟨visits, rfl⟩, directory, name, hwalks, ⟨hentry, hextension, hdirectory, hfile⟩, rfl⟩
    · rintro ⟨-, directory, name, hwalks, htakes, rfl⟩
      obtain ⟨entry, ⟨there, left, hlocate, -⟩, -⟩ := htakes.entry
      have hname := (FileTree.mem_files_visitOf_iff htree hlocate).mpr htakes.entry
      have hvisit := (FileTree.mem_visits_iff htree hvisits).mpr
        ⟨directory, there, left, hwalks, hlocate, rfl⟩
      exact ⟨_, hvisit, name, hname, htakes.extension,
        excludes_eq_false_iff.mpr ⟨htakes.keepsDirectory, htakes.keepsFile⟩, rfl⟩

/-- A scan takes a file with the extension if neither it nor its directory is excluded. -/
theorem takes_of_file {directory name : String} {place : Place} {links : Nat} {bytes : List UInt8}
    (htree : host.tree.IsStorable)
    (hdirectory : host.tree.locate host.here directory = .ok { place, entry := .directory, links })
    (hentry : host.tree.entryAt? (place ++ [name]) = some (.file bytes))
    (hextension : scan.extension.toList <:+ name.toList)
    (hkeepsDirectory : directory ∉ scan.excludeDirs.map Path.collapsed)
    (hkeepsFile : Path.child directory name ∉ scan.excludeFiles.map Path.collapsed) :
    scan.Takes host directory name := by
  have hlinked := FileTree.isDirectory_child_iff htree hdirectory hentry
  exact
    { entry := ⟨.file bytes, (FileTree.hasEntry_iff hdirectory).mpr hentry, by simp,
        by simpa using hlinked⟩
      extension := hextension
      keepsDirectory := hkeepsDirectory
      keepsFile := hkeepsFile }

/-- In a directory without directories, a scan that does not follow links finds what it takes. -/
theorem finds_of_leaf {place : Place} {links : Nat} {name : String}
    (hlinks : scan.followLinks = false)
    (hstart : host.tree.locate host.here start = .ok { place, entry := .directory, links })
    (hleaf : ∀ name, host.tree.entryAt? (place ++ [name]) ≠ some .directory)
    (htakes : scan.Takes host start name) : scan.Finds host start (Path.child start name) := by
  refine ⟨fun directory hwalks => ?_, start, name, .refl, htakes, rfl⟩
  rw [hlinks] at hwalks
  rw [FileTree.eq_of_walksTo hstart hleaf hwalks]
  exact ⟨place, links, hstart⟩

/-- A scan comes to a result if it does so for each of its directories. -/
theorem exists_run_eq_ok_iff {directories : List String} :
    (∃ files, (scan.run host directories past).outcome = .ok files) ↔
      ∀ directory ∈ directories, '\x00' ∉ (Path.collapsed directory).toList ∧
        ¬ scan.Overflows host (Path.collapsed directory) := by
  rw [hasOutcome_run]
  constructor
  · rintro ⟨files, hfiles⟩
    exact (outcome_eq_ok_iff.mp hfiles).1
  · exact fun h => ⟨_, outcome_eq_ok_iff.mpr ⟨h, rfl⟩⟩

/-- A scan lists, in ascending order, the files that are found below its directories. It does so
unless one of the directories has no text that a file system can be asked for, or the walk through
one of them runs out of room. -/
theorem run_lists_found (scan : SourceScan) (htree : host.tree.IsStorable)
    (directories : List String) (past : List LogRecord) :
    ((∃ files, (scan.run host directories past).outcome = .ok files) ↔
      ∀ directory ∈ directories, '\x00' ∉ (Path.collapsed directory).toList ∧
        ¬ scan.Overflows host (Path.collapsed directory)) ∧
    (∀ directory, scan.Overflows host directory → ∃ deep,
      host.tree.WalksIn host.here scan.followLinks host.room.directories directory deep) ∧
    ∀ files, (scan.run host directories past).outcome = .ok files →
      files.Pairwise (· < ·) ∧ ∀ file, file ∈ files ↔
        ∃ directory ∈ directories, scan.Finds host (Path.collapsed directory) file := by
  refine ⟨exists_run_eq_ok_iff, fun directory => FileTree.exists_walksIn_of_visits htree,
    fun files hfiles => ?_⟩
  have hroom := exists_run_eq_ok_iff.mp ⟨files, hfiles⟩
  rw [run_eq_ok hfiles]
  refine ⟨Text.pairwise_sortedSet _, fun file => ?_⟩
  rw [Text.mem_sortedSet, List.mem_flatMap]
  exact exists_congr fun directory => and_congr_right fun hdirectory =>
    mem_listed_iff_finds htree (hroom directory hdirectory).2

/-- A library with a file and with a link that leads back into the library. -/
def libraryHost : Host where
  tree := ⟨[(["lib"], .directory), (["lib", "Extra.elm"], .file []),
    (["lib", "Loop.elm"], .link ".")]⟩
  here := []
  accountHome := "/"
  environment := []
  time := ""

/-- A scan that excludes nothing and does not follow links, with the extension that is the default
one. -/
def plainScan : SourceScan where
  excludeDirs := []
  excludeFiles := []
  extension := ".elm"
  followLinks := false

/-- The tree of the library is one that a file system can hold. -/
theorem isStorable_libraryHost : libraryHost.tree.IsStorable := by
  decide

/-- The directory of the library is found where it stands. -/
theorem locate_libraryHost : libraryHost.tree.locate libraryHost.here "/lib" =
    .ok { place := ["lib"], entry := .directory, links := FileTree.maxLinks } := by
  have hat : libraryHost.tree.IsAt ["lib"] .directory := by decide
  exact hat.locate_eq (by decide) (by decide) []

/-- The file of the library is found below its directory. -/
theorem finds_libraryHost : plainScan.Finds libraryHost "/lib" "/lib/Extra.elm" := by
  have hentry : libraryHost.tree.entryAt? (["lib"] ++ ["Extra.elm"]) = some (.file []) := by decide
  have htakes : plainScan.Takes libraryHost "/lib" "Extra.elm" :=
    takes_of_file isStorable_libraryHost locate_libraryHost hentry (by decide) List.not_mem_nil
      List.not_mem_nil
  refine finds_of_leaf rfl locate_libraryHost (fun name hdirectory => ?_) htakes
  have hmem := FileTree.mem_entries_of_entryAt? (by simp) hdirectory
  simp [libraryHost] at hmem

/-- Of a directory that is missing and one that is given twice, in two ways, the scan lists the
files of the latter. -/
theorem run_lists_found_libraryHost :
    libraryHost.tree.IsStorable ∧
      ∃ files, (plainScan.run libraryHost ["/gone", "/lib/", "/lib/../lib"] []).outcome =
        .ok files ∧ files.Pairwise (· < ·) ∧ "/lib/Extra.elm" ∈ files := by
  obtain ⟨hok, -, hlists⟩ :=
    run_lists_found plainScan isStorable_libraryHost ["/gone", "/lib/", "/lib/../lib"] []
  have hcollapsed : Path.collapsed "/lib/" = "/lib" := by decide +kernel
  have hnull : ∀ directory ∈ ["/gone", "/lib/", "/lib/../lib"],
      '\x00' ∉ (Path.collapsed directory).toList := by decide +kernel
  obtain ⟨files, hfiles⟩ := hok.mpr fun directory hdirectory =>
    ⟨hnull directory hdirectory, not_overflows rfl (by decide) (by decide)⟩
  obtain ⟨hsorted, hmem⟩ := hlists files hfiles
  refine ⟨isStorable_libraryHost, files, hfiles, hsorted, (hmem _).mpr ⟨"/lib/", by simp, ?_⟩⟩
  rw [hcollapsed]
  exact finds_libraryHost

/-- A directory that no file system can be asked for takes away what another directory has. -/
theorem unaskable_directory_hides_found :
    plainScan.Finds libraryHost (Path.collapsed "/lib") "/lib/Extra.elm" ∧
      ∀ files, (plainScan.run libraryHost ["/a\x00b", "/lib"] []).outcome ≠ .ok files := by
  have hcollapsed : Path.collapsed "/lib" = "/lib" := by decide +kernel
  have hnull : '\x00' ∈ (Path.collapsed "/a\x00b").toList := by decide +kernel
  refine ⟨hcollapsed ▸ finds_libraryHost, fun files hfiles => ?_⟩
  exact (exists_run_eq_ok_iff.mp ⟨files, hfiles⟩ "/a\x00b" (by simp)).1 hnull

end ElmReach.SourceScan
