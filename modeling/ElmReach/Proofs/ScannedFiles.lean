import ElmReach.Proofs.FirstFailure
import ElmReach.Proofs.LinkFree
import ElmReach.SourceScan
import Mathlib.Data.List.Sort
import Mathlib.Data.String.Basic

/-!
# What a scan lists

A scan lists the files that the walks through its directories find, in ascending order and each one
once, so only the set of its directories matters. It is stopped by a directory that no file system
can be asked for, and by a walk that runs out of room; every other directory that cannot be walked
is passed over. A walk that does not follow links, and that starts from a place without links, stays
below that place and meets no link on its way.
-/

namespace ElmReach

namespace Text

/-- Erasing repeated texts leaves different ones. -/
theorem nodup_eraseDups (texts : List String) : texts.eraseDups.Nodup := by
  cases texts with
  | nil => simp
  | cons first rest =>
    rw [List.eraseDups_cons]
    refine List.nodup_cons.mpr ⟨fun hmem => ?_, nodup_eraseDups _⟩
    simpa using (List.mem_filter.mp (List.mem_eraseDups.mp hmem)).2
termination_by texts.length
decreasing_by exact Nat.lt_succ_of_le (List.length_filter_le _ rest)

/-- Two lists with the same members have equally many of them. -/
theorem length_eraseDups_congr {texts others : List String}
    (h : ∀ text, text ∈ others ↔ text ∈ texts) :
    others.eraseDups.length = texts.eraseDups.length := by
  have hmem (text : String) : text ∈ others.eraseDups ↔ text ∈ texts.eraseDups := by
    rw [List.mem_eraseDups, List.mem_eraseDups, h]
  exact ((List.perm_ext_iff_of_nodup (nodup_eraseDups others) (nodup_eraseDups texts)).mpr
    hmem).length_eq

/-- Sorting a list and leaving out what is repeated keeps its members. -/
theorem mem_sortedSet {texts : List String} {text : String} :
    text ∈ sortedSet texts ↔ text ∈ texts := by
  rw [sortedSet, sorted, List.mem_mergeSort, List.mem_eraseDups]

/-- A sorted list without repetitions is strictly ascending, in the order of the code points. -/
theorem pairwise_sortedSet (texts : List String) : (sortedSet texts).Pairwise (· < ·) := by
  have hiff (a b : String) : (!decide (b < a)) = true ↔ a ≤ b := by
    rw [Bool.not_eq_true', decide_eq_false_iff_not, not_lt]
  have hle : (sortedSet texts).Pairwise (· ≤ ·) := by
    refine (List.pairwise_mergeSort (fun a b c hab hbc => ?_) (fun a b => ?_) _).imp fun {a b} => ?_
    · exact (hiff a c).mpr (((hiff a b).mp hab).trans ((hiff b c).mp hbc))
    · rw [Bool.or_eq_true, hiff, hiff]
      exact le_total a b
    · exact (hiff a b).mp
  have hnodup : (sortedSet texts).Nodup :=
    (List.mergeSort_perm _ _).nodup_iff.mpr (nodup_eraseDups texts)
  exact hle.imp₂ (fun a b hab hne => lt_of_le_of_ne hab hne) hnodup

/-- Only the set of the texts matters. So files that are found twice, or in another order, make the
same list. -/
theorem sortedSet_congr {texts others : List String} (h : ∀ text, text ∈ texts ↔ text ∈ others) :
    sortedSet texts = sortedSet others :=
  (pairwise_sortedSet texts).eq_of_mem_iff (pairwise_sortedSet others) fun text => by
    rw [mem_sortedSet, mem_sortedSet, h]

end Text

namespace FileTree

variable {tree : FileTree} {followLinks : Bool} {room links : Nat} {place : Place}
  {text name : String} {visits : List Visit} {visit : Visit}

/-- The names in a directory are those of its entries. -/
theorem mem_namesIn :
    name ∈ tree.namesIn place ↔ ∃ entry, tree.entryAt? (place ++ [name]) = some entry := by
  rw [namesIn, List.mem_eraseDups, List.mem_filterMap]
  constructor
  · rintro ⟨⟨there, entry⟩, hentry, hname⟩
    dsimp only at hname
    split at hname
    · next habove =>
      have hthere : there = place ++ [name] := by
        rw [← habove, List.dropLast_append_getLast? name hname]
      rw [entryAt?, if_neg (by simp), ← Option.ne_none_iff_exists']
      intro hnone
      have hother := List.lookup_eq_none_iff.mp hnone (there, entry) hentry
      simp [hthere] at hother
    · cases hname
  · rintro ⟨entry, hentry⟩
    exact ⟨(place ++ [name], entry), mem_entries_of_entryAt? (by simp) hentry, by simp⟩

/-- A target leads to a linked directory exactly if its text is short enough to be asked for and
following it ends at a directory. -/
theorem linkedDirectory?_eq_some_iff {target : String} {arrival : Arrival} :
    tree.linkedDirectory? links place target text = some arrival ↔
      isTooLong text = false ∧ tree.followLink links place target = .ok arrival ∧
        arrival.entry = .directory := by
  unfold linkedDirectory?
  split
  · simp_all
  · split
    · split <;> grind
    · simp_all

/-- A walk goes on into directories, and into links to directories if it follows links. -/
theorem entered?_eq_some_iff {left : Nat} {there : Place} :
    tree.entered? followLinks links place text name = some (left, there) ↔
      (tree.entryAt? (place ++ [name]) = some .directory ∧ links = left ∧ place ++ [name] = there) ∨
        ∃ target, tree.entryAt? (place ++ [name]) = some (.link target) ∧ followLinks = true ∧
          isTooLong (Path.child text name) = false ∧ tree.followLink links place target =
            .ok { place := there, entry := .directory, links := left } := by
  unfold entered?
  split
  · next hentry => simp [hentry]
  · next target hentry =>
    cases followLinks with
    | false => simp [hentry]
    | true =>
      simp only [hentry, if_true, Option.map_eq_some_iff, linkedDirectory?_eq_some_iff]
      constructor
      · rintro ⟨⟨there', entry, left'⟩, ⟨hshort, hfollow, hdirectory⟩, heq⟩
        obtain ⟨rfl, rfl⟩ := Prod.mk.inj heq
        obtain rfl : entry = .directory := hdirectory
        exact .inr ⟨target, rfl, trivial, hshort, hfollow⟩
      · rintro (⟨⟨⟩, -, -⟩ | ⟨_, ⟨rfl⟩, -, hshort, hfollow⟩)
        exact ⟨_, ⟨hshort, hfollow, rfl⟩, rfl⟩
  · next hdirectory hlink =>
    constructor
    · rintro ⟨⟩
    · rintro (⟨hentry, -, -⟩ | ⟨target, hentry, -⟩)
      · exact absurd hentry hdirectory
      · exact absurd hentry (hlink target)

/-- The directories that a walk enters are found among the names in its directory. -/
theorem mem_namesIn_of_entered? {next : Nat × Place}
    (h : tree.entered? followLinks links place text name = some next) :
    name ∈ tree.namesIn place := by
  obtain ⟨hentry, -⟩ | ⟨target, hentry, -⟩ := entered?_eq_some_iff.mp h
  · exact mem_namesIn.mpr ⟨_, hentry⟩
  · exact mem_namesIn.mpr ⟨_, hentry⟩

/-- What a walk finds behind an entry of a directory. -/
def walkEntry (tree : FileTree) (followLinks : Bool) (room links : Nat) (place : Place)
    (text name : String) : Except Fault (List Visit) :=
  match tree.entered? followLinks links place text name with
  | some (left, there) => tree.walk followLinks room left there (Path.child text name)
  | none => .ok []

/-- A walk that has room for its directory visits it, and goes on into the entries that it enters
with the room that is left. -/
theorem walk_succ (tree : FileTree) (followLinks : Bool) (room links : Nat) (place : Place)
    (text : String) :
    tree.walk followLinks (room + 1) links place text =
      if isTooLong text then .error (.file .nameTooLong text)
      else do
        let below ← (tree.namesIn place).mapM (tree.walkEntry followLinks room links place text)
        return tree.visitOf links place text :: below.flatten := by
  rw [walk]
  split
  · rfl
  · rfl

/-- A walk has a result if it can list its directory and has a result in each one that it enters. -/
theorem exists_walk_eq_ok_iff :
    (∃ visits, tree.walk followLinks (room + 1) links place text = .ok visits) ↔
      isTooLong text = false ∧ ∀ name left there,
        tree.entered? followLinks links place text name = some (left, there) →
          ∃ visits, tree.walk followLinks room left there (Path.child text name) = .ok visits := by
  rw [walk_succ]
  split
  · next hlong => simp [hlong]
  · next hshort =>
    constructor
    · rintro ⟨visits, hvisits⟩
      obtain ⟨below, hbelow, -⟩ := Results.bind_eq_ok.mp hvisits
      refine ⟨by simpa using hshort, fun name left there hentered => ?_⟩
      have hresult := Results.exists_eq_ok_of_mapM hbelow name (mem_namesIn_of_entered? hentered)
      rwa [walkEntry, hentered] at hresult
    · rintro ⟨-, hentries⟩
      obtain ⟨below, hbelow⟩ : ∃ below, (tree.namesIn place).mapM
          (tree.walkEntry followLinks room links place text) = .ok below := by
        refine Results.exists_mapM_eq_ok fun name _ => ?_
        rw [walkEntry]
        split
        · next left there hentered => exact hentries name left there hentered
        · exact ⟨[], rfl⟩
      exact ⟨_, Results.bind_eq_ok.mpr ⟨below, hbelow, rfl⟩⟩

/-- The visits of a walk are the one of its directory and those of the walks in the directories that
it enters. -/
theorem mem_walk_iff (h : tree.walk followLinks (room + 1) links place text = .ok visits) :
    visit ∈ visits ↔ visit = tree.visitOf links place text ∨ ∃ name left there,
      tree.entered? followLinks links place text name = some (left, there) ∧ ∃ below,
        tree.walk followLinks room left there (Path.child text name) = .ok below ∧
          visit ∈ below := by
  rw [walk_succ] at h
  split at h
  · cases h
  · obtain ⟨below, hbelow, hvisits⟩ := Results.bind_eq_ok.mp h
    rw [← Except.ok.inj hvisits, List.mem_cons, List.mem_flatten]
    refine or_congr_right ⟨?_, ?_⟩
    · rintro ⟨part, hpart, hmem⟩
      obtain ⟨name, hname, hresult⟩ := Results.exists_of_mem_mapM hbelow hpart
      rw [walkEntry] at hresult
      split at hresult
      · next left there hentered => exact ⟨name, left, there, hentered, part, hresult, hmem⟩
      · obtain rfl := Except.ok.inj hresult
        exact absurd hmem List.not_mem_nil
    · rintro ⟨name, left, there, hentered, part, hpart, hmem⟩
      have hresult : tree.walkEntry followLinks room links place text name = .ok part := by
        rw [walkEntry, hentered]
        exact hpart
      exact ⟨part, Results.mem_of_mapM hbelow (mem_namesIn_of_entered? hentered) hresult, hmem⟩

/-- A walk stops before a directory whose text is too long, or in one that it enters. -/
theorem exists_of_walk_eq_error {fault : Fault}
    (h : tree.walk followLinks (room + 1) links place text = .error fault) :
    (isTooLong text = true ∧ fault = .file .nameTooLong text) ∨
      isTooLong text = false ∧ ∃ name left there,
      tree.entered? followLinks links place text name = some (left, there) ∧
        tree.walk followLinks room left there (Path.child text name) = .error fault := by
  rw [walk_succ] at h
  split at h
  · next hlong => exact .inl ⟨hlong, (Except.error.inj h).symm⟩
  · next hshort =>
    refine .inr ⟨by simpa using hshort, ?_⟩
    obtain hbelow | ⟨below, -, hvisits⟩ := Results.bind_eq_error.mp h
    · obtain ⟨name, -, hresult⟩ := Results.exists_of_mapM_eq_error hbelow
      rw [walkEntry] at hresult
      split at hresult
      · next left there hentered => exact ⟨name, left, there, hentered, hresult⟩
      · cases hresult
    · cases hvisits

/-- What holds of the start of a walk, and of an entry whenever it holds of the entry's directory,
holds of the directories that are visited and of their files. -/
theorem forall_mem_walk {P : String → Prop}
    (hchild : ∀ there text name, name ∈ tree.namesIn there → P text → P (Path.child text name))
    (htext : P text) (h : tree.walk followLinks room links place text = .ok visits) :
    ∀ visit ∈ visits, P visit.directory ∧
      ∀ name ∈ visit.files, P (Path.child visit.directory name) := by
  induction room generalizing links place text visits with
  | zero => cases h
  | succ room ih =>
    intro visit hvisit
    rcases (mem_walk_iff h).mp hvisit with rfl | ⟨name, left, there, hentered, below, hbelow, hmem⟩
    · exact ⟨htext, fun name hname =>
        hchild place text name (List.mem_filter.mp hname).1 htext⟩
    · have hentry := hchild place text name (mem_namesIn_of_entered? hentered) htext
      exact ih hentry hbelow visit hmem

/-- What holds of the text a walk starts with, and is kept from a directory to what is in it, holds
of all directories and files that the walk visits. The induction is on the visits. -/
theorem forall_mem_visits {P : String → Prop} {here : Place} {path : String}
    (hchild : ∀ there text name, name ∈ tree.namesIn there → P text → P (Path.child text name))
    (hpath : P path) (h : tree.visits followLinks room here path = .ok visits) :
    ∀ visit ∈ visits, P visit.directory ∧
      ∀ name ∈ visit.files, P (Path.child visit.directory name) := by
  unfold FileTree.visits at h
  split at h
  · exact forall_mem_walk hchild hpath h
  · cases h
  · cases h

/-- A walk stops only before a directory whose text is too long, or where it runs out of room. -/
theorem fault_eq_of_walk {fault : Fault}
    (h : tree.walk followLinks room links place text = .error fault) :
    fault = .tooDeep ∨ ∃ directory, fault = .file .nameTooLong directory := by
  induction room generalizing links place text with
  | zero => exact .inl (Except.error.inj h).symm
  | succ room ih =>
    obtain ⟨-, rfl⟩ | ⟨-, name, left, there, -, hbelow⟩ := exists_of_walk_eq_error h
    · exact .inr ⟨text, rfl⟩
    · exact ih hbelow

/-- A walk that does not follow links and runs out of room comes to a directory as many names away
as there was room. -/
theorem exists_directory_of_tooDeep
    (h : tree.walk false (room + 1) links place text = .error .tooDeep) :
    ∃ names, names.length = room + 1 ∧ tree.entryAt? (place ++ names) = some .directory := by
  induction room generalizing links place text with
  | zero =>
    obtain ⟨-, ⟨⟩⟩ | ⟨-, name, left, there, hentered, -⟩ := exists_of_walk_eq_error h
    obtain ⟨hentry, -⟩ : tree.entryAt? (place ++ [name]) = some .directory ∧ _ := by
      simpa using entered?_eq_some_iff.mp hentered
    exact ⟨[name], rfl, hentry⟩
  | succ room ih =>
    obtain ⟨-, ⟨⟩⟩ | ⟨-, name, left, there, hentered, hbelow⟩ := exists_of_walk_eq_error h
    obtain ⟨-, -, rfl⟩ : _ ∧ links = left ∧ place ++ [name] = there := by
      simpa using entered?_eq_some_iff.mp hentered
    obtain ⟨names, hlength, hentry⟩ := ih hbelow
    refine ⟨name :: names, by rw [List.length_cons, hlength], ?_⟩
    rwa [List.append_cons]

/-- In a tree with short places only, a walk that does not follow links has room enough. -/
theorem visits_ne_tooDeep {here : Place} {path : String} (hroom : 0 < room)
    (h : ∀ item ∈ tree.entries, item.1.length < room) :
    tree.visits false room here path ≠ .error .tooDeep := by
  obtain ⟨room, rfl⟩ := Nat.exists_eq_succ_of_ne_zero hroom.ne'
  intro hdeep
  rw [FileTree.visits] at hdeep
  split at hdeep
  · obtain ⟨names, hlength, hentry⟩ := exists_directory_of_tooDeep hdeep
    have hnames : names ≠ [] := List.ne_nil_of_length_pos (hlength ▸ Nat.succ_pos room)
    have hshort :=
      h _ (mem_entries_of_entryAt? (List.append_ne_nil_of_right_ne_nil _ hnames) hentry)
    rw [List.length_append, hlength] at hshort
    exact absurd hshort (by omega)
  · cases hdeep
  · cases hdeep

/-- A directory with the character of code zero is refused for it. -/
theorem visits_eq_nullByte {here : Place} {path : String} (h : '\x00' ∈ path.toList) :
    tree.visits followLinks room here path = .error (.file .nullByte path) := by
  rw [FileTree.visits, locate_eq_nullByte_iff.mpr h]

/-- A directory without the character of code zero is never refused for it. -/
theorem fault_eq_of_visits {here : Place} {path : String} {fault : Fault}
    (hpath : '\x00' ∉ path.toList)
    (h : tree.visits followLinks room here path = .error fault) :
    fault = .tooDeep ∨ ∃ error directory, fault = .file error directory ∧ error ≠ .nullByte := by
  unfold FileTree.visits at h
  split at h
  · obtain rfl | ⟨directory, rfl⟩ := fault_eq_of_walk h
    · exact .inl rfl
    · exact .inr ⟨.nameTooLong, directory, rfl, by simp⟩
  · exact .inr ⟨.notDirectory, path, (Except.error.inj h).symm, by simp⟩
  · next error hlocate =>
    refine .inr ⟨error, path, (Except.error.inj h).symm, ?_⟩
    rintro rfl
    exact hpath (locate_eq_nullByte_iff.mp hlocate)

/-- A place that a walk without links visits: it lies below the start of the walk, and no link leads
to it. -/
structure Visit.IsInside (visit : Visit) (tree : FileTree) (start : Place) : Prop where
  exists_place : ∃ place : Place, start <+: place ∧ place.IsProper ∧ tree.LinkFree place ∧
    visit.directory = place.render
  files : ∀ name ∈ visit.files, IsName name

/-- A walk that does not follow links stays below its start. -/
theorem isInside_of_mem_walk (htree : tree.IsSound) (hproper : place.IsProper)
    (hfree : tree.LinkFree place)
    (h : tree.walk false room links place place.render = .ok visits) (hvisit : visit ∈ visits) :
    visit.IsInside tree place := by
  induction room generalizing place links visits with
  | zero => cases h
  | succ room ih =>
    rcases (mem_walk_iff h).mp hvisit with rfl | ⟨name, left, there, hentered, below, hbelow, hmem⟩
    · refine ⟨⟨place, List.prefix_rfl, hproper, hfree, rfl⟩, fun name hname => ?_⟩
      exact htree.isName (List.mem_filter.mp hname).1
    · have hname := htree.isName (mem_namesIn_of_entered? hentered)
      obtain ⟨hentry, -, rfl⟩ : tree.entryAt? (place ++ [name]) = some .directory ∧ links = left ∧
          place ++ [name] = there := by simpa using entered?_eq_some_iff.mp hentered
      have hproper' : Place.IsProper (place ++ [name]) :=
        hproper.append fun _ hother => List.mem_singleton.mp hother ▸ hname
      have hfree' : tree.LinkFree (place ++ [name]) := hfree.concat (by simp [hentry])
      rw [Place.child_render hproper] at hbelow
      obtain ⟨⟨there, hinside, hthere⟩, hfiles⟩ := ih hproper' hfree' hbelow hmem
      exact ⟨⟨there, (List.prefix_append place [name]).trans hinside, hthere⟩, hfiles⟩

/-- So do the visits from the text of a place without links. -/
theorem isInside_of_mem_visits (htree : tree.IsSound) (hproper : place.IsProper)
    (hfree : tree.LinkFree place) {here : Place}
    (h : tree.visits false room here place.render = .ok visits) (hvisit : visit ∈ visits) :
    visit.IsInside tree place := by
  rcases locate_render hproper hfree here with ⟨entry, hlocate⟩ | ⟨error, hlocate, -⟩
  · rw [FileTree.visits, hlocate] at h
    cases entry with
    | directory => exact isInside_of_mem_walk htree hproper hfree h hvisit
    | file bytes => cases h
    | link target => cases h
  · rw [FileTree.visits, hlocate] at h
    cases h

end FileTree

namespace SourceScan

variable {scan : SourceScan} {host : Host} {past : List LogRecord} {directory : String}

/-- The visits of the walk that a scan makes through a directory. -/
def visits (scan : SourceScan) (host : Host) (directory : String) :
    Except Fault (List FileTree.Visit) :=
  host.tree.visits scan.followLinks host.room.directories host.here directory

/-- The files that a scan finds below one directory. -/
def listed (scan : SourceScan) (host : Host) (directory : String) : List String :=
  match scan.visits host directory with
  | .error _ => []
  | .ok visits =>
    ((visits.flatMap scan.candidates).filter fun (directory, file) =>
      !scan.excludes directory file).map Prod.snd

/-- The walk through a directory runs out of room. This is the only failure of a walk that is not
passed over. -/
def Overflows (scan : SourceScan) (host : Host) (directory : String) : Prop :=
  scan.visits host directory = .error .tooDeep

/-- Whether the walk of a directory goes deeper than there is room for can be decided by walking. -/
instance (scan : SourceScan) (host : Host) (directory : String) :
    Decidable (scan.Overflows host directory) :=
  match h : scan.visits host directory with
  | .ok _ => isFalse (by simp [Overflows, h])
  | .error fault => decidable_of_iff (fault = .tooDeep) (by simp [Overflows, h])

/-- In a tree with short places only, a scan that does not follow links has room enough. -/
theorem not_overflows (hlinks : scan.followLinks = false) (hroom : 0 < host.room.directories)
    (h : ∀ item ∈ host.tree.entries, item.1.length < host.room.directories) :
    ¬ scan.Overflows host directory := by
  unfold Overflows visits
  rw [hlinks]
  exact FileTree.visits_ne_tooDeep hroom h

/-- What a scan of one directory comes to: it is stopped by a directory that no file system can be
asked for, and by a walk that runs out of room. -/
def outcomeBelow (scan : SourceScan) (host : Host) (directory : String) :
    Except Failure (List String) :=
  if '\x00' ∈ directory.toList then .error (.fault (.file .nullByte directory))
  else if scan.Overflows host directory then .error (.fault .tooDeep)
  else .ok (scan.listed host directory)

/-- Scanning a directory comes to what `outcomeBelow` says. What was reported before makes no
difference. -/
theorem hasOutcome_filesBelow (scan : SourceScan) (host : Host) (directory : String) :
    (scan.filesBelow host directory).HasOutcome (scan.outcomeBelow host directory) := by
  intro past
  have hvisits : host.tree.visits scan.followLinks host.room.directories host.here directory =
      scan.visits host directory := rfl
  by_cases hnull : '\x00' ∈ directory.toList
  · rw [outcomeBelow, if_pos hnull, filesBelow, FileTree.visits_eq_nullByte hnull]
    rfl
  · rw [outcomeBelow, if_neg hnull]
    cases hresult : scan.visits host directory with
    | error fault =>
      obtain rfl | ⟨error, place, rfl, hne⟩ := FileTree.fault_eq_of_visits hnull hresult
      · rw [if_pos (show scan.Overflows host directory from hresult), filesBelow, hvisits, hresult]
        rfl
      · rw [if_neg (by simp [Overflows, hresult]), listed, filesBelow, hvisits, hresult]
        cases error with
        | nullByte => exact absurd rfl hne
        | _ => rfl
    | ok visits =>
      rw [if_neg (by simp [Overflows, hresult]), listed, filesBelow, hvisits, hresult]
      simp only [List.partition_eq_filter_filter]
      rfl

/-- A directory is scanned to its end exactly if its text can be asked for and the walk does not go
too deep. Then the files listed for it are found. -/
theorem outcomeBelow_eq_ok_iff {found : List String} :
    scan.outcomeBelow host directory = .ok found ↔
      '\x00' ∉ directory.toList ∧ ¬ scan.Overflows host directory ∧
        scan.listed host directory = found := by
  rw [outcomeBelow]
  split
  · next hnull => simp [hnull]
  · split
    · next hoverflows => simp [hoverflows]
    · next hnull hoverflows => simp [hnull, hoverflows]

/-- What a scan of directories comes to: the files that it finds, or the first directory that stops
it. -/
def outcome (scan : SourceScan) (host : Host) (directories : List String) :
    Except Failure (List String) :=
  (directories.mapM fun directory => scan.outcomeBelow host (Path.collapsed directory)).map
    fun found => Text.sortedSet found.flatten

/-- A scan of several directories comes to the outcome of the first one that fails, or to all files
found. -/
theorem hasOutcome_run (scan : SourceScan) (host : Host) (directories : List String) :
    (scan.run host directories).HasOutcome (scan.outcome host directories) := by
  have hbelow := Traced.hasOutcome_forEach
    (fun directory => hasOutcome_filesBelow scan host (Path.collapsed directory)) directories
  have hrun : (scan.run host directories).HasOutcome _ :=
    hbelow.bind fun found => Traced.hasOutcome_pure (Text.sortedSet found.flatten)
  have hmap : scan.outcome host directories = directories.mapM (fun directory =>
      scan.outcomeBelow host (Path.collapsed directory)) >>= fun found =>
        .ok (Text.sortedSet found.flatten) := by
    rw [outcome]
    cases directories.mapM fun directory => scan.outcomeBelow host (Path.collapsed directory) <;>
      rfl
  rw [hmap]
  exact hrun

/-- A scan comes to the files that it finds, unless a directory stops it. -/
theorem outcome_eq_ok_iff {directories files : List String} :
    scan.outcome host directories = .ok files ↔
      (∀ directory ∈ directories, '\x00' ∉ (Path.collapsed directory).toList ∧
        ¬ scan.Overflows host (Path.collapsed directory)) ∧
      files = Text.sortedSet (directories.flatMap fun directory =>
        scan.listed host (Path.collapsed directory)) := by
  have hlisted (h : ∀ directory ∈ directories, '\x00' ∉ (Path.collapsed directory).toList ∧
      ¬ scan.Overflows host (Path.collapsed directory)) :
      (directories.mapM fun directory => scan.outcomeBelow host (Path.collapsed directory)) =
        .ok (directories.map fun directory => scan.listed host (Path.collapsed directory)) :=
    Results.mapM_eq_ok fun directory hdirectory =>
      outcomeBelow_eq_ok_iff.mpr ⟨(h directory hdirectory).1, (h directory hdirectory).2, rfl⟩
  rw [outcome, Results.map_eq_ok]
  constructor
  · rintro ⟨found, hfound, rfl⟩
    have hall (directory : String) (hdirectory : directory ∈ directories) :
        '\x00' ∉ (Path.collapsed directory).toList ∧
          ¬ scan.Overflows host (Path.collapsed directory) := by
      obtain ⟨below, hbelow⟩ := Results.exists_eq_ok_of_mapM hfound directory hdirectory
      obtain ⟨hnull, hroom, -⟩ := outcomeBelow_eq_ok_iff.mp hbelow
      exact ⟨hnull, hroom⟩
    obtain rfl := Except.ok.inj ((hlisted hall).symm.trans hfound)
    exact ⟨hall, by rw [List.flatMap_def]⟩
  · rintro ⟨hall, rfl⟩
    exact ⟨_, hlisted hall, by rw [List.flatMap_def]⟩

/-- Directories that can be asked for stop a scan only where a walk runs out of room. -/
theorem outcome_eq_error_iff {directories : List String} {failure : Failure}
    (hdirs : ∀ directory ∈ directories, '\x00' ∉ directory.toList) :
    scan.outcome host directories = .error failure ↔
      (∃ directory ∈ directories, scan.Overflows host (Path.collapsed directory)) ∧
        failure = .fault .tooDeep := by
  have hnull (directory : String) (hdirectory : directory ∈ directories) :=
    Path.null_notMem_collapsed (hdirs directory hdirectory)
  have hfault (h : ¬ ∃ directory ∈ directories, scan.Overflows host (Path.collapsed directory)) :
      scan.outcome host directories ≠ .error failure := by
    rw [outcome_eq_ok_iff.mpr ⟨fun directory hdirectory => ⟨hnull directory hdirectory,
      fun hoverflows => h ⟨directory, hdirectory, hoverflows⟩⟩, rfl⟩]
    simp
  constructor
  · intro h
    refine ⟨not_not.mp fun hno => hfault hno h, ?_⟩
    cases hfound : directories.mapM fun directory =>
        scan.outcomeBelow host (Path.collapsed directory) with
    | ok found =>
      rw [outcome, hfound] at h
      cases h
    | error other =>
      rw [outcome, hfound] at h
      obtain rfl := Except.error.inj h
      obtain ⟨directory, hdirectory, hbelow⟩ := Results.exists_of_mapM_eq_error hfound
      rw [outcomeBelow, if_neg (hnull directory hdirectory)] at hbelow
      split at hbelow
      · exact (Except.error.inj hbelow).symm
      · cases hbelow
  · rintro ⟨⟨directory, hdirectory, hoverflows⟩, rfl⟩
    have hfails : scan.outcomeBelow host (Path.collapsed directory) = .error (.fault .tooDeep) := by
      rw [outcomeBelow, if_neg (hnull directory hdirectory), if_pos hoverflows]
    have hall : directories.mapM (fun directory =>
        scan.outcomeBelow host (Path.collapsed directory)) = .error (.fault .tooDeep) := by
      refine Results.mapM_eq_error_of_same (fun other hother => ?_) ⟨directory, hdirectory, hfails⟩
      rw [outcomeBelow, if_neg (hnull other hother)]
      split
      · exact .inl rfl
      · exact .inr ⟨_, rfl⟩
    rw [outcome, hall]
    rfl

/-- Of directories that can be asked for, only the set matters. -/
theorem outcome_congr {directories others : List String}
    (hmem : ∀ directory, directory ∈ directories ↔ directory ∈ others)
    (hdirs : ∀ directory ∈ directories, '\x00' ∉ directory.toList) :
    scan.outcome host directories = scan.outcome host others := by
  have hothers : ∀ directory ∈ others, '\x00' ∉ directory.toList :=
    fun directory hdirectory => hdirs directory ((hmem directory).mpr hdirectory)
  by_cases hdeep : ∃ directory ∈ directories, scan.Overflows host (Path.collapsed directory)
  · have hdeep' : ∃ directory ∈ others, scan.Overflows host (Path.collapsed directory) := by
      simpa only [hmem] using hdeep
    rw [(outcome_eq_error_iff hdirs).mpr ⟨hdeep, rfl⟩,
      (outcome_eq_error_iff hothers).mpr ⟨hdeep', rfl⟩]
  · have hok (directory : String) (hdirectory : directory ∈ directories) :
        '\x00' ∉ (Path.collapsed directory).toList ∧
          ¬ scan.Overflows host (Path.collapsed directory) :=
      ⟨Path.null_notMem_collapsed (hdirs directory hdirectory),
        fun hoverflows => hdeep ⟨directory, hdirectory, hoverflows⟩⟩
    rw [outcome_eq_ok_iff.mpr ⟨hok, rfl⟩, outcome_eq_ok_iff.mpr ⟨fun directory hdirectory =>
      hok directory ((hmem directory).mpr hdirectory), rfl⟩]
    refine congrArg Except.ok (Text.sortedSet_congr fun file => ?_)
    simp only [List.mem_flatMap, hmem]

/-- A scan that comes to an end has found the files that are listed for its directories, sorted and
without repetitions. -/
theorem run_eq_ok {directories files : List String}
    (h : (scan.run host directories past).outcome = .ok files) :
    files = Text.sortedSet (directories.flatMap fun directory =>
      scan.listed host (Path.collapsed directory)) := by
  rw [hasOutcome_run] at h
  exact (outcome_eq_ok_iff.mp h).2

/-- No walk of a scan that has listed its files has run out of room. -/
theorem not_overflows_of_run {directories files : List String}
    (h : (scan.run host directories past).outcome = .ok files)
    (hdirectory : directory ∈ directories) :
    ¬ scan.Overflows host (Path.collapsed directory) := by
  rw [hasOutcome_run] at h
  exact ((outcome_eq_ok_iff.mp h).1 directory hdirectory).2

/-- A file that is found stands in a directory that is visited. -/
theorem exists_visit_of_mem_listed {file : String} (h : file ∈ scan.listed host directory) :
    ∃ visits, scan.visits host directory = .ok visits ∧
      ∃ visit ∈ visits, ∃ name ∈ visit.files, file = Path.child visit.directory name := by
  unfold listed at h
  split at h
  · exact absurd h List.not_mem_nil
  · next visits hvisits =>
    obtain ⟨⟨_, _⟩, hkept, rfl⟩ := List.mem_map.mp h
    obtain ⟨visit, hvisit, hcandidate⟩ := List.mem_flatMap.mp (List.mem_filter.mp hkept).1
    obtain ⟨name, hname, heq⟩ := List.mem_map.mp hcandidate
    obtain ⟨rfl, rfl⟩ := Prod.mk.inj heq
    exact ⟨visits, hvisits, visit, hvisit, name, (List.mem_filter.mp hname).1, rfl⟩

/-- What holds of a directory, and of an entry whenever it holds of the entry's directory, holds of
the files that are found below the directory. -/
theorem forall_mem_listed {P : String → Prop}
    (hchild : ∀ there text name, name ∈ host.tree.namesIn there → P text →
      P (Path.child text name))
    (hdirectory : P directory) : ∀ file ∈ scan.listed host directory, P file := by
  intro file hfile
  obtain ⟨visits, hvisits, visit, hvisit, name, hname, rfl⟩ := exists_visit_of_mem_listed hfile
  exact (FileTree.forall_mem_visits hchild hdirectory hvisits visit hvisit).2 name hname

end SourceScan

end ElmReach
