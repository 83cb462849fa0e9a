import ElmReach.Proofs.BuildStages
import ElmReach.Proofs.DirectoryWalk

/-!
# The log file

A log file is created where its path leads, so the names of the file system stay such as a file
system can have. Opening the log fails exactly where the file system refuses the file. What the log
writes changes one place, at which no directory and no link stands, so a file at any other place is
found and read as before.
-/

namespace ElmReach

namespace FileTree

variable {tree grown : FileTree} {here place : Place} {path : String} {bytes : List UInt8}

/-- An entry of a sound tree stands at a proper place, and so does the top. -/
theorem IsSound.isProper_of_entryAt? (htree : tree.IsSound) {entry : Entry}
    (h : tree.entryAt? place = some entry) : place.IsProper := by
  by_cases hne : place = []
  · exact hne ▸ Place.isProper_nil
  · exact htree.names place entry (mem_entries_of_entryAt? hne h)

/-- The start of the way along a path is a proper place: the top of the tree or the working
directory. -/
theorem isProper_startOf (hhere : here.IsProper) (path : String) :
    (startOf here path).IsProper := by
  unfold startOf
  split
  · exact Place.isProper_nil
  · exact hhere

/-- A search arrives at a place whose names are names of entries. -/
theorem isProper_of_follow (htree : tree.IsSound) (hhere : here.IsProper) {links : Nat}
    {steps : List String} {arrival : Arrival} (h : tree.follow links here steps = .ok arrival) :
    arrival.place.IsProper := by
  fun_induction follow tree links here steps with
  | case1 => cases h; exact hhere
  | case2 _ _ _ ih => exact ih hhere h
  | case3 _ _ here _ ih => exact ih (hhere.of_above (List.dropLast_prefix _)) h
  | case4 => cases h
  | case5 => cases h
  | case6 _ _ _ _ _ _ _ hentry ih => exact ih (htree.isProper_of_entryAt? hentry) h
  | case7 _ _ _ _ _ _ _ hentry => cases h; exact htree.isProper_of_entryAt? hentry
  | case8 => cases h
  | case9 => cases h
  | case10 _ _ _ _ _ _ target _ _ ih => exact ih (isProper_startOf hhere target) h

/-- The names on the way along a path are those of entries, apart from the dots. -/
theorem isName_of_mem_namesOf (hpath : '\x00' ∉ path.toList) {name : String}
    (h : name ∈ namesOf path) (hdots : ¬ (name = "." ∨ name = "..")) : IsName name := by
  obtain ⟨piece, hpiece, rfl⟩ := List.mem_map.mp h
  obtain ⟨hmem, hne⟩ := List.mem_filter.mp hpiece
  obtain ⟨hdot, hdots⟩ := not_or.mp hdots
  refine (isStep_ofList hpath hmem).isName (not_or.mpr ⟨fun hempty => ?_, hdot⟩) hdots
  simp_all [← String.toList_inj]

/-- Writing to a path writes a place whose names are names of entries. -/
theorem isProper_writePlace (htree : tree.IsSound) (hhere : here.IsProper)
    (hpath : '\x00' ∉ path.toList) {links : Nat}
    (h : tree.writePlace links here path = .ok place) : place.IsProper := by
  fun_induction writePlace tree links here path with
  | case1 => cases h
  | case2 => cases h
  | case3 => cases h
  | case4 => cases h
  | case5 => cases h
  | case6 => cases h
  | case7 _ _ path _ _ _ _ _ _ _ hfollow hentry _ ih =>
    have hparent := isProper_of_follow htree (isProper_startOf hhere path) hfollow
    exact ih hparent (htree.target hentry) h
  | case8 _ _ path name hlast _ _ hfollow hdots =>
    cases h
    have hparent := isProper_of_follow htree (isProper_startOf hhere path) hfollow
    refine hparent.append fun other hother => ?_
    rw [List.mem_singleton.mp hother]
    exact isName_of_mem_namesOf hpath (List.mem_of_getLast? hlast) fun h =>
      hdots (h.imp_right .inl)
  | case9 => cases h

/-- Writing a file at a proper place leaves a sound tree. -/
theorem IsSound.set (htree : tree.IsSound) (hplace : place.IsProper) (bytes : List UInt8) :
    (tree.set place (.file bytes)).IsSound where
  names other entry h := by
    rcases List.mem_append.mp h with h | h
    · exact htree.names other entry (List.mem_filter.mp h).1
    · obtain ⟨rfl, -⟩ := Prod.mk.inj (List.mem_singleton.mp h)
      exact hplace
  targets other target h := by
    rcases List.mem_append.mp h with h | h
    · exact htree.targets other target (List.mem_filter.mp h).1
    · obtain ⟨-, ⟨⟩⟩ := Prod.mk.inj (List.mem_singleton.mp h)

/-- Appending to a file sets the place that its path leads to. -/
theorem exists_set_of_append (h : tree.append here path bytes = .ok grown) :
    '\x00' ∉ path.toList ∧ ∃ place content, tree.writePlace maxLinks here path = .ok place ∧
      grown = tree.set place (.file content) := by
  unfold FileTree.append at h
  split at h
  · cases h
  · next hnull =>
    split at h
    · cases h
    · split at h
      · cases h
      · split at h
        · cases h
        · next place hplace =>
          refine ⟨hnull, place, ?_⟩
          split at h
          · exact ⟨_, hplace, (Except.ok.inj h).symm⟩
          · exact ⟨_, hplace, (Except.ok.inj h).symm⟩

/-- Appending to a file keeps the names such as a file system can have. -/
theorem IsSound.append (htree : tree.IsSound) (hhere : here.IsProper)
    (h : tree.append here path bytes = .ok grown) : grown.IsSound := by
  obtain ⟨hnull, place, content, hplace, rfl⟩ := exists_set_of_append h
  exact htree.set (isProper_writePlace htree hhere hnull hplace) content

section Write

variable {links : Nat} {other : FileTree}

/-- Setting an entry changes no other place. What is found anywhere else is found as before. -/
theorem entryAt?_set_of_ne {entry : Entry} {there : Place} (h : there ≠ place) :
    (tree.set place entry).entryAt? there = tree.entryAt? there := by
  have hbeq : (there == place) = false := beq_eq_false_iff_ne.mpr h
  have hkept : (tree.entries.filter (·.1 ≠ place)).lookup there = tree.entries.lookup there := by
    induction tree.entries with
    | nil => rfl
    | cons item rest ih =>
      obtain ⟨first, entry⟩ := item
      rw [List.filter_cons, List.lookup_cons]
      by_cases hfirst : first = place
      · rw [if_neg (by simp [hfirst]), ih, hfirst, hbeq]
      · rw [if_pos (by simp [hfirst]), List.lookup_cons, ih]
  unfold entryAt? set
  rw [List.lookup_append, hkept, List.lookup_cons, hbeq]
  simp

/-- Writing to a path leads to the directory of its last name, and there to the place of this name
if nothing stands there yet, or a file. -/
theorem writePlace_eq_ok {left : Nat} {name : String}
    (hlast : (namesOf path).getLast? = some name)
    (hparent : tree.follow links (startOf here path) (namesOf path).dropLast =
      .ok { place, entry := .directory, links := left })
    (hname : ¬ (name = "." ∨ name = ".." ∨ endsWithSlash path = true))
    (hshort : name.utf8ByteSize ≤ maxNameBytes)
    (hfile : ∀ entry, tree.entryAt? (place ++ [name]) = some entry → ∃ bytes, entry = .file bytes) :
    tree.writePlace links here path = .ok (place ++ [name]) := by
  unfold writePlace
  split
  · simp_all
  · next other hother =>
    obtain rfl := Option.some.inj (hlast.symm.trans hother)
    split
    · simp_all
    · next place' left' hfollow =>
      obtain ⟨rfl, -, rfl⟩ := Arrival.mk.inj (Except.ok.inj (hparent.symm.trans hfollow))
      rw [if_neg hname, if_neg (Nat.not_lt.mpr hshort)]
      split
      · next hentry => obtain ⟨bytes, ⟨⟩⟩ := hfile _ hentry
      · next hentry => obtain ⟨bytes, ⟨⟩⟩ := hfile _ hentry
      · next hentry => obtain ⟨bytes, ⟨⟩⟩ := hfile _ hentry
      · rfl
    · next hno hfollow => exact absurd (hfollow.symm.trans hparent) (by simpa using hno place left)

/-- The text of a place below directories is written at the place. -/
theorem writePlace_render {name : String} (hproper : Place.IsProper (place ++ [name]))
    (hshort : ∀ other ∈ place ++ [name], other.utf8ByteSize ≤ maxNameBytes)
    (habove : ∀ above, above <+: place → tree.entryAt? above = some .directory)
    (hfile : ∀ entry, tree.entryAt? (place ++ [name]) = some entry → ∃ bytes, entry = .file bytes) :
    tree.writePlace links here (Place.render (place ++ [name])) = .ok (place ++ [name]) := by
  have hnames := Place.namesOf_render hproper
  have hname := hproper name (by simp)
  have hslash : ¬ endsWithSlash (Place.render (place ++ [name])) = true := by
    simpa [endsWithSlash] using Place.getLast?_render (by simp) hproper
  have hplace : tree.follow links [] place = .ok { place, entry := .directory, links } := by
    by_cases hne : place = []
    · rw [hne, follow]
    · exact follow_eq_ok hne (hproper.of_above (List.prefix_append place [name]))
        (fun other hother => hshort other (List.mem_append_left _ hother))
        (fun above hprefix _ => habove above hprefix) (habove place List.prefix_rfl) (by simp)
  have hparent : tree.follow links (startOf here (Place.render (place ++ [name])))
      (namesOf (Place.render (place ++ [name]))).dropLast =
        .ok { place, entry := .directory, links } := by
    rw [startOf_render, hnames, List.dropLast_concat]
    exact hplace
  exact writePlace_eq_ok (by simp [hnames]) hparent
    (by simp [hname.ne_dot, hname.ne_dots, hslash]) (hshort name (by simp)) hfile

/-- Where a file is written stands nothing yet, or another file. -/
theorem isFile_of_writePlace (h : tree.writePlace links here path = .ok place) {entry : Entry}
    (hentry : tree.entryAt? place = some entry) : ∃ bytes, entry = .file bytes := by
  fun_induction writePlace tree links here path with
  | case1 => cases h
  | case2 => cases h
  | case3 => cases h
  | case4 => cases h
  | case5 => cases h
  | case6 => cases h
  | case7 _ _ path _ _ _ _ _ _ _ hfollow hlink _ ih => exact ih h
  | case8 _ _ _ _ _ _ left hfollow _ _ hdirectory _ hlast hlink =>
    cases h
    cases entry with
    | file bytes => exact ⟨bytes, rfl⟩
    | directory => exact absurd hentry hdirectory
    | link target =>
      cases left with
      | zero => exact absurd HEq.rfl (hlast target hfollow hentry rfl)
      | succ left => exact absurd HEq.rfl (hlink target left hfollow hentry rfl)
  | case9 => cases h

/-- A search that ends elsewhere does not notice a change of a place at which neither a directory
nor a link stands. -/
theorem follow_of_sameBut {steps : List String} {arrival : Arrival}
    (hsame : ∀ there, there ≠ place → other.entryAt? there = tree.entryAt? there)
    (hfile : ∀ entry, tree.entryAt? place = some entry → ∃ bytes, entry = .file bytes)
    (h : tree.follow links here steps = .ok arrival) (hne : arrival.place ≠ place) :
    other.follow links here steps = .ok arrival := by
  have hpassed {there : Place} {entry : Entry} (hentry : tree.entryAt? there = some entry)
      (hnot : ∀ bytes, entry ≠ .file bytes) : other.entryAt? there = some entry := by
    rw [hsame there, hentry]
    rintro rfl
    obtain ⟨bytes, rfl⟩ := hfile entry hentry
    exact hnot bytes rfl
  fun_induction follow tree links here steps with
  | case1 => rw [follow]; exact h
  | case2 links here rest ih => rw [follow, if_pos rfl]; exact ih h
  | case3 links here rest hdot ih => rw [follow, if_neg hdot, if_pos rfl]; exact ih h
  | case4 => cases h
  | case5 => cases h
  | case6 links here step rest hdot hdots hlong hentry ih =>
    rw [follow, if_neg hdot, if_neg hdots, if_neg hlong, hpassed hentry (by simp)]
    exact ih h
  | case7 links here step hdot hdots hlong bytes hentry =>
    obtain rfl := Except.ok.inj h
    rw [follow, if_neg hdot, if_neg hdots, if_neg hlong, hsame _ hne, hentry]
    rfl
  | case8 => cases h
  | case9 => cases h
  | case10 here step rest hdot hdots hlong target hentry links ih =>
    rw [follow, if_neg hdot, if_neg hdots, if_neg hlong, hpassed hentry (by simp)]
    exact ih h

/-- Appending to a file leaves alone what is found at another place. -/
theorem locate_of_append {start : Place} {source : String} {arrival : Arrival}
    (h : tree.append here path bytes = .ok grown)
    (hfound : tree.locate start source = .ok arrival)
    (helsewhere : tree.writePlace maxLinks here path ≠ .ok arrival.place) :
    grown.locate start source = .ok arrival := by
  obtain ⟨-, place, content, hplace, rfl⟩ := exists_set_of_append h
  obtain ⟨hnull, hne, hlong, hfollow⟩ := locate_eq_ok_iff.mp hfound
  refine locate_eq_ok_iff.mpr ⟨hnull, hne, hlong, ?_⟩
  refine follow_of_sameBut (fun there => entryAt?_set_of_ne)
    (fun entry => isFile_of_writePlace hplace) hfollow ?_
  rintro rfl
  exact helsewhere hplace

end Write

end FileTree

namespace Host

variable {host logging : Host} {level : Level} {file : Option String}

/-- Opening a log file leaves a host with a sound tree. It writes at a place whose directory is in
the tree already. -/
theorem IsSound.openLog (hhost : host.IsSound) (h : host.openLog level file = .ok logging) :
    logging.IsSound := by
  unfold Host.openLog at h
  split at h
  · obtain rfl := Except.ok.inj h
    exact ⟨hhost.tree, hhost.here⟩
  · dsimp only at h
    split at h
    · cases h
    · next grown hgrown =>
      obtain rfl := Except.ok.inj h
      exact ⟨hhost.tree.append hhost.here hgrown, hhost.here⟩

/-- What the log writes leaves the file at a path as it is. -/
def LogLeaves (host : Host) (path : String) : Prop :=
  ∀ records, (host.treeAfter records).file? host.here (Path.tidy path) =
    host.tree.file? host.here (Path.tidy path)

/-- Without a log file, nothing is written, so that reading any file is left alone by the log. -/
theorem logLeaves_of_noFile (h : host.sink.file = none) (path : String) : host.LogLeaves path := by
  intro records
  rw [treeAfter, LogSink.write, h]

/-- A log file leaves alone every file that is found at another place than the one to which the log
is written, whatever links lead to the two. -/
theorem logLeaves_of_elsewhere {path : String} {arrival : FileTree.Arrival}
    (hfound : host.tree.locate host.here (Path.tidy path) = .ok arrival)
    (helsewhere : ∀ log, host.sink.file = some log →
      host.tree.writePlace FileTree.maxLinks [] log ≠ .ok arrival.place) :
    host.LogLeaves path := by
  intro records
  rw [treeAfter, LogSink.write]
  split
  · rfl
  · next log hlog =>
    split
    · next grown hgrown =>
      rw [FileTree.file?, FileTree.file?, hfound,
        FileTree.locate_of_append hgrown hfound (helsewhere log hlog)]
    · rfl

/-- The log of this host is written next to a source file. -/
example :
    let tree : FileTree := ⟨[(["p"], .directory), (["p", "A.elm"], .file [])]⟩
    let host : Host :=
      { tree, here := [], accountHome := "/", environment := [], time := ""
        sink := { level := Level.info, file := some (Place.render ["p", "log.txt"]) } }
    host.LogLeaves (Place.render ["p", "A.elm"]) := by
  intro tree host
  have hat : tree.IsAt ["p", "A.elm"] (.file []) := by decide
  have htidy : Path.tidy (Place.render ["p", "A.elm"]) = Place.render ["p", "A.elm"] := by
    decide +kernel
  refine logLeaves_of_elsewhere (htidy ▸ hat.locate_eq (by decide) (by decide) [])
    fun log hlog => ?_
  obtain rfl := Option.some.inj hlog
  have habove : ∀ above, above <+: ["p"] → tree.entryAt? above = some .directory := by
    simp [List.prefix_cons_iff, tree, FileTree.entryAt?]
  have hplace : host.tree.writePlace FileTree.maxLinks [] (Place.render ["p", "log.txt"]) =
      .ok ["p", "log.txt"] :=
    FileTree.writePlace_render (by decide) (by decide) habove
      (by simp [tree, FileTree.entryAt?, List.lookup_cons])
  rw [hplace]
  simp

end Host

end ElmReach
