import ElmReach.Proofs.ScannedFiles
import Mathlib.Logic.Relation

/-!
# The directories of a walk

A walk keeps a place and a number of links beside the text of each directory; both are what a search
for the text finds. So a walk can be described by texts alone: it goes from a directory into the
directories in it, and into the links that lead to one if it follows links. It succeeds if each text
on its way leads to a directory and none is more steps away than the walk has room for, and it then
visits each of them.
-/

namespace ElmReach

namespace Text

/-- Splitting leaves at least one piece, which is empty if the text is. -/
theorem splitAt_ne_nil (separator : Char) (text : List Char) : splitAt separator text ≠ [] := by
  cases text with
  | nil => simp [splitAt]
  | cons c rest =>
    rw [splitAt]
    split
    · simp
    · cases splitAt separator rest with
      | nil => simp [consFirst]
      | cons piece pieces => simp [consFirst]

/-- A separator between two texts separates their pieces. -/
theorem splitAt_append_separator (separator : Char) (text rest : List Char) :
    splitAt separator (text ++ separator :: rest) =
      splitAt separator text ++ splitAt separator rest := by
  induction text with
  | nil => simp [splitAt]
  | cons c text ih =>
    rw [List.cons_append, splitAt, splitAt, ih]
    split
    · rfl
    · cases hpieces : splitAt separator text with
      | nil => exact absurd hpieces (splitAt_ne_nil separator text)
      | cons piece pieces => rfl

end Text

namespace FileTree

/-- A tree that a file system can hold: its names are also short enough to be looked up, so that
every entry can be found by its name. -/
structure IsStorable (tree : FileTree) : Prop extends tree.IsSound where
  name_le : ∀ place entry, (place, entry) ∈ tree.entries →
    ∀ name ∈ place, name.utf8ByteSize ≤ maxNameBytes

/-- Whether a file system can hold a tree is decided entry by entry. -/
instance (tree : FileTree) : Decidable tree.IsStorable :=
  decidable_of_iff
    (∀ item ∈ tree.entries, Place.IsProper item.1 ∧
      (∀ name ∈ item.1, name.utf8ByteSize ≤ maxNameBytes) ∧
        (match item.2 with
          | .link target => decide ('\x00' ∉ target.toList)
          | _ => true) = true)
    ⟨fun h => ⟨⟨fun place entry hmem => (h (place, entry) hmem).1,
        fun place target hmem => of_decide_eq_true (h (place, .link target) hmem).2.2⟩,
        fun place entry hmem => (h (place, entry) hmem).2.1⟩,
      fun h item hmem => ⟨h.names _ _ hmem, h.name_le _ _ hmem, by
        obtain ⟨place, entry⟩ := item
        cases entry with
        | link target => exact decide_eq_true (h.targets place target hmem)
        | _ => rfl⟩⟩

variable {tree : FileTree} {here place : Place} {room links : Nat} {name : String}

/-- What stands in a directory stands there under the name of an entry. -/
theorem IsStorable.isName {entry : Entry} (htree : tree.IsStorable)
    (h : tree.entryAt? (place ++ [name]) = some entry) : IsName name :=
  htree.toIsSound.isName (mem_namesIn.mpr ⟨entry, h⟩)

/-- What stands in a directory has a name that is short enough to be looked up. -/
theorem IsStorable.name_le_of_entryAt? {entry : Entry} (htree : tree.IsStorable)
    (h : tree.entryAt? (place ++ [name]) = some entry) : name.utf8ByteSize ≤ maxNameBytes :=
  htree.name_le _ _ (mem_entries_of_entryAt? (by simp) h) name (by simp)

section Follow

variable {steps more : List String}

/-- Steps behind steps start where the first ones end, which has to be a directory. -/
theorem follow_append (hmore : more ≠ []) :
    tree.follow links here (steps ++ more) =
      match tree.follow links here steps with
      | .ok { place, entry := .directory, links := left } => tree.follow left place more
      | .ok _ => .error .notDirectory
      | .error error => .error error := by
  fun_induction follow tree links here steps with
  | case1 => rfl
  | case2 links here rest ih => rw [List.cons_append, follow, if_pos rfl, ih]
  | case3 links here rest hdot ih => rw [List.cons_append, follow, if_neg hdot, if_pos rfl, ih]
  | case4 links here step rest hdot hdots hlong =>
    rw [List.cons_append, follow, if_neg hdot, if_neg hdots, if_pos hlong]
  | case5 links here step rest hdot hdots hlong hentry =>
    rw [List.cons_append, follow, if_neg hdot, if_neg hdots, if_neg hlong, hentry]
  | case6 links here step rest hdot hdots hlong hentry ih =>
    rw [List.cons_append, follow, if_neg hdot, if_neg hdots, if_neg hlong, hentry]
    exact ih
  | case7 links here step hdot hdots hlong bytes hentry =>
    rw [List.cons_append, follow, if_neg hdot, if_neg hdots, if_neg hlong, hentry]
    exact if_neg hmore
  | case8 links here step rest hdot hdots hlong bytes hentry hrest =>
    rw [List.cons_append, follow, if_neg hdot, if_neg hdots, if_neg hlong, hentry]
    exact if_neg (List.append_ne_nil_of_left_ne_nil hrest more)
  | case9 here step rest hdot hdots hlong target hentry =>
    rw [List.cons_append, follow, if_neg hdot, if_neg hdots, if_neg hlong, hentry]
  | case10 here step rest hdot hdots hlong target hentry links ih =>
    rw [List.cons_append, follow, if_neg hdot, if_neg hdots, if_neg hlong, hentry]
    rw [List.append_assoc] at ih
    exact ih

/-- One name leads to the entry with this name, through the link if it is one. -/
theorem follow_name (hname : IsName name) (hshort : name.utf8ByteSize ≤ maxNameBytes) :
    tree.follow links place [name] =
      match tree.entryAt? (place ++ [name]) with
      | none => .error .notFound
      | some (.link target) => tree.followLink links place target
      | some entry => .ok { place := place ++ [name], entry, links } := by
  rw [follow, if_neg hname.ne_dot, if_neg hname.ne_dots, if_neg (Nat.not_lt.mpr hshort)]
  cases tree.entryAt? (place ++ [name]) with
  | none => rfl
  | some entry =>
    cases entry with
    | file bytes => rfl
    | directory => simp [follow]
    | link target =>
      cases links with
      | zero => rfl
      | succ links => simp [followLink]

end Follow

section Child

variable {directory : String}

/-- The text of an entry is that of its directory, a slash if it does not end with one, and the
name. -/
theorem toList_child (directory name : String) :
    ∃ base, (Path.child directory name).toList = base ++ '/' :: name.toList ∧
      (directory.toList = base ∨ directory.toList = base ++ ['/']) := by
  rw [Path.child]
  split
  · next hlast =>
    obtain ⟨base, hbase⟩ := List.getLast?_eq_some_iff.mp hlast
    exact ⟨base, by simp [hbase], .inr hbase⟩
  · exact ⟨directory.toList, by simp, .inl rfl⟩

/-- The names in the text of an entry are those of its directory and its own. -/
theorem namesOf_child (hname : IsName name) :
    namesOf (Path.child directory name) = namesOf directory ++ [name] := by
  obtain ⟨base, hchild, hbase⟩ := toList_child directory name
  have hlast : ((Text.splitAt '/' name.toList).filter (· ≠ [])).map String.ofList = [name] := by
    rw [Text.splitAt_eq_singleton hname.noSlash]
    simp [hname.ne_empty]
  have hdirectory : namesOf directory =
      ((Text.splitAt '/' base).filter (· ≠ [])).map String.ofList := by
    rw [namesOf]
    rcases hbase with hbase | hbase
    · rw [hbase]
    · rw [hbase, Text.splitAt_append_separator, List.filter_append]
      simp [Text.splitAt]
  rw [namesOf, hchild, Text.splitAt_append_separator, List.filter_append, List.map_append, hlast,
    hdirectory]

/-- The text of an entry does not end with a slash, since it ends with a name. -/
theorem getLast?_child (hname : IsName name) :
    (Path.child directory name).toList.getLast? ≠ some '/' := by
  obtain ⟨base, hchild, -⟩ := toList_child directory name
  intro hlast
  rw [hchild, List.getLast?_append, List.getLast?_cons_of_ne_nil hname.toList_ne_nil,
    Option.or_of_isSome (by simpa using hname.ne_empty)] at hlast
  exact hname.noSlash (List.mem_of_getLast? hlast)

/-- Searching for an entry takes the steps of its directory and then its name. -/
theorem stepsOf_child (hname : IsName name) :
    stepsOf (Path.child directory name) = namesOf directory ++ [name] := by
  rw [stepsOf, namesOf_child hname, endsWithSlash, if_neg (by simpa using getLast?_child hname),
    List.append_nil]

/-- The text of an entry starts where that of its directory does. -/
theorem startOf_child (hne : directory ≠ "") (here : Place) (name : String) :
    startOf here (Path.child directory name) = startOf here directory := by
  obtain ⟨c, rest, hdirectory⟩ : ∃ c rest, directory.toList = c :: rest :=
    List.exists_cons_of_ne_nil fun hnil => hne (String.toList_eq_nil_iff.mp hnil)
  have hhead : (Path.child directory name).toList.head? = directory.toList.head? := by
    rw [Path.child, hdirectory]
    split <;> simp [hdirectory]
  rw [startOf, startOf, hhead]

/-- A file system can be asked for the text of an entry if it can be asked for that of its
directory. -/
theorem null_notMem_child (hdirectory : '\x00' ∉ directory.toList) (hname : IsName name) :
    '\x00' ∉ (Path.child directory name).toList := by
  have hnull := hname.noNull
  rw [Path.child]
  split <;> simp [hdirectory, hnull]

/-- A search ends where the steps of its text lead, provided that the text can be looked up. -/
theorem locate_eq_ok_iff {path : String} {arrival : Arrival} :
    tree.locate here path = .ok arrival ↔
      '\x00' ∉ path.toList ∧ path ≠ "" ∧ isTooLong path = false ∧
        tree.follow maxLinks (startOf here path) (stepsOf path) = .ok arrival := by
  unfold locate
  split
  · simp_all
  · split
    · simp_all
    · split <;> simp_all

/-- The names of a directory's text lead to it, whether or not a slash follows them. -/
theorem follow_namesOf {left : Nat}
    (h : tree.follow links (startOf here directory) (stepsOf directory) =
      .ok { place, entry := .directory, links := left }) :
    tree.follow links (startOf here directory) (namesOf directory) =
      .ok { place, entry := .directory, links := left } := by
  rw [stepsOf] at h
  split at h
  · rw [follow_append (by simp)] at h
    split at h
    · next hfollow =>
      rw [hfollow]
      simpa [follow] using h
    · cases h
    · cases h
  · simpa using h

/-- A search for an entry of a directory starts where the search for the directory ends. -/
theorem locate_child (hname : IsName name)
    (h : tree.locate here directory = .ok { place, entry := .directory, links }) :
    tree.locate here (Path.child directory name) =
      if isTooLong (Path.child directory name) then .error .nameTooLong
      else tree.follow links place [name] := by
  obtain ⟨hnull, hne, -, hfollow⟩ := locate_eq_ok_iff.mp h
  have hne' : Path.child directory name ≠ "" := by
    rw [Path.child]
    split <;> simp [hne]
  rw [locate, if_neg (null_notMem_child hnull hname), if_neg hne', startOf_child hne,
    stepsOf_child hname, follow_append (by simp), follow_namesOf hfollow]

end Child

section Walk

variable {followLinks : Bool} {text : String}

/-- The path leads to a directory, possibly through links. -/
def IsDirectory (tree : FileTree) (here : Place) (path : String) : Prop :=
  ∃ place links, tree.locate here path = .ok { place, entry := .directory, links }

/-- The path leads to a directory in which an entry has this name. What kind of entry it is does not
matter. -/
def HasEntry (tree : FileTree) (here : Place) (directory name : String) (entry : Entry) : Prop :=
  ∃ place links, tree.locate here directory = .ok { place, entry := .directory, links } ∧
    tree.entryAt? (place ++ [name]) = some entry

/-- A directory has an entry exactly if a search that ends in the directory finds the entry next to
where it ends. -/
theorem hasEntry_iff {entry : Entry}
    (h : tree.locate here text = .ok { place, entry := .directory, links }) :
    tree.HasEntry here text name entry ↔ tree.entryAt? (place ++ [name]) = some entry := by
  constructor
  · rintro ⟨there, left, hlocate, hentry⟩
    obtain ⟨rfl, -, -⟩ := Arrival.mk.inj (Except.ok.inj (h.symm.trans hlocate))
    exact hentry
  · exact fun hentry => ⟨place, links, h, hentry⟩

/-- A walk in a directory goes on into an entry of it: a directory, or a link to a directory if the
walk follows links. -/
def Enters (tree : FileTree) (here : Place) (followLinks : Bool) (directory below : String) :
    Prop :=
  ∃ name entry, below = Path.child directory name ∧ tree.HasEntry here directory name entry ∧
    (entry = .directory ∨ followLinks = true ∧ tree.IsDirectory here below)

/-- A walk comes from a directory to another one, which can be the same, going into one entry after
the other. -/
def WalksTo (tree : FileTree) (here : Place) (followLinks : Bool) : String → String → Prop :=
  Relation.ReflTransGen (tree.Enters here followLinks)

/-- A walk can list every directory that it comes to. Only then does a scan list the files below its
start. -/
def Walkable (tree : FileTree) (here : Place) (followLinks : Bool) (start : String) : Prop :=
  ∀ directory, tree.WalksTo here followLinks start directory → tree.IsDirectory here directory

/-- A walk comes from a directory to another one in this many steps. The number is what the room of
a walk bounds. -/
def WalksIn (tree : FileTree) (here : Place) (followLinks : Bool) :
    Nat → String → String → Prop
  | 0, start, directory => start = directory
  | steps + 1, start, directory =>
    ∃ below, tree.Enters here followLinks start below ∧
      tree.WalksIn here followLinks steps below directory

/-- An entry of a directory is a directory, or a link to one, that can be looked up. -/
theorem isDirectory_child_iff (htree : tree.IsStorable) {entry : Entry}
    (h : tree.locate here text = .ok { place, entry := .directory, links })
    (hentry : tree.entryAt? (place ++ [name]) = some entry) :
    tree.IsDirectory here (Path.child text name) ↔
      isTooLong (Path.child text name) = false ∧ (entry = .directory ∨
        ∃ target left there, entry = .link target ∧ tree.followLink links place target =
          .ok { place := there, entry := .directory, links := left }) := by
  rw [IsDirectory, locate_child (htree.isName hentry) h,
    follow_name (htree.isName hentry) (htree.name_le_of_entryAt? hentry), hentry]
  split
  · next hlong => simp [hlong]
  · next hshort => cases entry <;> simp [hshort]; exact exists_comm

/-- A walk goes on with what a search for the text of the entry finds. -/
theorem locate_of_entered? (htree : tree.IsStorable) {left : Nat} {there : Place}
    (h : tree.locate here text = .ok { place, entry := .directory, links })
    (hentered : tree.entered? followLinks links place text name = some (left, there))
    (hshort : isTooLong (Path.child text name) = false) :
    tree.locate here (Path.child text name) =
      .ok { place := there, entry := .directory, links := left } := by
  obtain ⟨entry, hentry⟩ := mem_namesIn.mp (mem_namesIn_of_entered? hentered)
  rw [locate_child (htree.isName hentry) h, hshort,
    follow_name (htree.isName hentry) (htree.name_le_of_entryAt? hentry)]
  obtain ⟨hentry, rfl, rfl⟩ | ⟨target, hentry, -, -, hfollow⟩ := entered?_eq_some_iff.mp hentered
  · rw [hentry]
    rfl
  · rw [hentry]
    exact hfollow

/-- The entries that a walk goes into: directories and, if links are followed, those links that lead
to directories. -/
theorem enters_iff (htree : tree.IsStorable) {below : String}
    (h : tree.locate here text = .ok { place, entry := .directory, links }) :
    tree.Enters here followLinks text below ↔ ∃ name left there,
      tree.entered? followLinks links place text name = some (left, there) ∧
        below = Path.child text name := by
  constructor
  · rintro ⟨name, entry, rfl, hentry, henter⟩
    rw [hasEntry_iff h] at hentry
    have hbelow (hdirectory : entry = .directory) :
        tree.entered? followLinks links place text name = some (links, place ++ [name]) :=
      entered?_eq_some_iff.mpr (.inl ⟨hdirectory ▸ hentry, rfl, rfl⟩)
    rcases henter with hdirectory | ⟨hfollows, hdirectory⟩
    · exact ⟨name, links, place ++ [name], hbelow hdirectory, rfl⟩
    · obtain ⟨hshort, hdirectory | ⟨target, left, there, rfl, hfollow⟩⟩ :=
        (isDirectory_child_iff htree h hentry).mp hdirectory
      · exact ⟨name, links, place ++ [name], hbelow hdirectory, rfl⟩
      · exact ⟨name, left, there,
          entered?_eq_some_iff.mpr (.inr ⟨target, hentry, hfollows, hshort, hfollow⟩), rfl⟩
  · rintro ⟨name, left, there, hentered, rfl⟩
    obtain ⟨hentry, -, -⟩ | ⟨target, hentry, hfollows, hshort, -⟩ :=
      entered?_eq_some_iff.mp hentered
    · exact ⟨name, .directory, rfl, (hasEntry_iff h).mpr hentry, .inl rfl⟩
    · exact ⟨name, .link target, rfl, (hasEntry_iff h).mpr hentry,
        .inr ⟨hfollows, there, left, locate_of_entered? htree h hentered hshort⟩⟩

/-- A walk that does not follow links stays in a directory that holds no directory. -/
theorem eq_of_walksTo {directory : String}
    (h : tree.locate here text = .ok { place, entry := .directory, links })
    (hleaf : ∀ name, tree.entryAt? (place ++ [name]) ≠ some .directory)
    (hwalks : tree.WalksTo here false text directory) : directory = text := by
  rcases Relation.ReflTransGen.cases_head_iff.mp hwalks with rfl | ⟨below, henters, -⟩
  · rfl
  · obtain ⟨name, entry, -, hentry, hdirectory⟩ := henters
    obtain rfl : entry = .directory := by simpa using hdirectory
    exact absurd ((hasEntry_iff h).mp hentry) (hleaf name)

/-- A path whose text is too long leads nowhere, so what leads to a directory has a text that is
short enough. -/
theorem IsDirectory.isTooLong_eq {path : String} (h : tree.IsDirectory here path) :
    isTooLong path = false := by
  obtain ⟨place, links, hlocate⟩ := h
  exact (locate_eq_ok_iff.mp hlocate).2.2.1

/-- A walk that has a result can list every directory that it comes to. The walk's own directory is
where a search for its text ends, unless the text is too long for a search. -/
theorem walkable_of_walk (htree : tree.IsStorable)
    (h : isTooLong text = false →
      tree.locate here text = .ok { place, entry := .directory, links })
    (hvisits : ∃ visits, tree.walk followLinks room links place text = .ok visits) :
    tree.Walkable here followLinks text := by
  induction room generalizing links place text with
  | zero => exact absurd hvisits (by simp [walk])
  | succ room ih =>
    obtain ⟨hshort, hbelow⟩ := exists_walk_eq_ok_iff.mp hvisits
    have hlocate := h hshort
    intro directory hwalks
    rcases Relation.ReflTransGen.cases_head_iff.mp hwalks with rfl | ⟨below, henters, hwalks⟩
    · exact ⟨place, links, hlocate⟩
    · obtain ⟨name, left, there, hentered, rfl⟩ := (enters_iff htree hlocate).mp henters
      exact ih (locate_of_entered? htree hlocate hentered) (hbelow name left there hentered)
        directory hwalks

/-- A walk that can list every directory that it comes to has a result, unless it runs out of
room. -/
theorem fault_eq_tooDeep_of_walkable (htree : tree.IsStorable)
    (h : isTooLong text = false →
      tree.locate here text = .ok { place, entry := .directory, links })
    (hwalkable : tree.Walkable here followLinks text) {fault : Fault}
    (hfault : tree.walk followLinks room links place text = .error fault) : fault = .tooDeep := by
  induction room generalizing links place text with
  | zero => exact (Except.error.inj hfault).symm
  | succ room ih =>
    have hshort := (hwalkable text .refl).isTooLong_eq
    have hlocate := h hshort
    obtain ⟨hlong, -⟩ | ⟨-, name, left, there, hentered, hbelow⟩ := exists_of_walk_eq_error hfault
    · simp [hshort] at hlong
    · have henters := (enters_iff htree hlocate).mpr ⟨name, left, there, hentered, rfl⟩
      exact ih (locate_of_entered? htree hlocate hentered)
        (fun directory hwalks => hwalkable directory (.head henters hwalks)) hbelow

/-- A walk that runs out of room comes to a directory as many steps away as there was room. -/
theorem exists_walksIn_of_tooDeep (htree : tree.IsStorable)
    (h : isTooLong text = false →
      tree.locate here text = .ok { place, entry := .directory, links })
    (hdeep : tree.walk followLinks room links place text = .error .tooDeep) :
    ∃ directory, tree.WalksIn here followLinks room text directory := by
  induction room generalizing links place text with
  | zero => exact ⟨text, rfl⟩
  | succ room ih =>
    obtain ⟨-, ⟨⟩⟩ | ⟨hshort, name, left, there, hentered, hbelow⟩ := exists_of_walk_eq_error hdeep
    have hlocate := h hshort
    obtain ⟨directory, hwalks⟩ := ih (locate_of_entered? htree hlocate hentered) hbelow
    have henters := (enters_iff htree hlocate).mpr ⟨name, left, there, hentered, rfl⟩
    exact ⟨directory, Path.child text name, henters, hwalks⟩

/-- A walk that has a result comes to no directory as many steps away as there was room. -/
theorem not_walksIn_of_walk (htree : tree.IsStorable)
    (h : isTooLong text = false →
      tree.locate here text = .ok { place, entry := .directory, links })
    (hvisits : ∃ visits, tree.walk followLinks room links place text = .ok visits)
    (directory : String) : ¬ tree.WalksIn here followLinks room text directory := by
  induction room generalizing links place text with
  | zero => exact absurd hvisits (by simp [walk])
  | succ room ih =>
    obtain ⟨hshort, hbelow⟩ := exists_walk_eq_ok_iff.mp hvisits
    have hlocate := h hshort
    rintro ⟨below, henters, hwalks⟩
    obtain ⟨name, left, there, hentered, rfl⟩ := (enters_iff htree hlocate).mp henters
    exact ih (locate_of_entered? htree hlocate hentered) (hbelow name left there hentered) hwalks

/-- The visits of a walk are those of the directories that it comes to, if there is room for it. The
induction is on the room, of which each step into a directory takes one. -/
theorem mem_walk_iff_walksTo (htree : tree.IsStorable) {visits : List Visit} {visit : Visit}
    (h : tree.locate here text = .ok { place, entry := .directory, links })
    (hvisits : tree.walk followLinks room links place text = .ok visits) :
    visit ∈ visits ↔ ∃ directory there left, tree.WalksTo here followLinks text directory ∧
      tree.locate here directory = .ok { place := there, entry := .directory, links := left } ∧
        visit = tree.visitOf left there directory := by
  induction room generalizing links place text visits with
  | zero => cases hvisits
  | succ room ih =>
    have hbelow := (exists_walk_eq_ok_iff.mp ⟨visits, hvisits⟩).2
    -- A walk below has listed its directory, whose text is therefore short.
    have hlocated {name : String} {left : Nat} {there : Place}
        (hentered : tree.entered? followLinks links place text name = some (left, there)) :
        tree.locate here (Path.child text name) =
          .ok { place := there, entry := .directory, links := left } := by
      refine locate_of_entered? htree h hentered ?_
      cases room with
      | zero => exact absurd (hbelow name left there hentered) (by simp [walk])
      | succ room => exact (exists_walk_eq_ok_iff.mp (hbelow name left there hentered)).1
    rw [mem_walk_iff hvisits]
    constructor
    · rintro (rfl | ⟨name, left, there, hentered, below, hwalk, hmem⟩)
      · exact ⟨text, place, links, .refl, h, rfl⟩
      · obtain ⟨directory, there', left', hwalks, hvisit⟩ :=
          (ih (hlocated hentered) hwalk).mp hmem
        have henters := (enters_iff htree h).mpr ⟨name, left, there, hentered, rfl⟩
        exact ⟨directory, there', left', .head henters hwalks, hvisit⟩
    · rintro ⟨directory, there, left, hwalks, hdirectory, rfl⟩
      rcases Relation.ReflTransGen.cases_head_iff.mp hwalks with rfl | ⟨below, henters, hwalks⟩
      · rw [h] at hdirectory
        obtain ⟨rfl, -, rfl⟩ := Arrival.mk.inj (Except.ok.inj hdirectory)
        exact .inl rfl
      · obtain ⟨name, left', there', hentered, rfl⟩ := (enters_iff htree h).mp henters
        obtain ⟨below, hwalk⟩ := hbelow name left' there' hentered
        refine .inr ⟨name, left', there', hentered, below, hwalk, ?_⟩
        exact (ih (hlocated hentered) hwalk).mpr ⟨directory, there, left, hwalks, hdirectory, rfl⟩

variable {start : String}

/-- The walk from a path that can be walked starts at a directory. -/
theorem Walkable.visits_eq (h : tree.Walkable here followLinks start) (room : Nat) :
    ∃ place links, tree.locate here start = .ok { place, entry := .directory, links } ∧
      tree.visits followLinks room here start = tree.walk followLinks room links place start := by
  obtain ⟨place, links, hlocate⟩ := h start .refl
  exact ⟨place, links, hlocate, by rw [FileTree.visits, hlocate]⟩

/-- The walk from a path has a result exactly if it can list every directory that it comes to and
does not run out of room. -/
theorem exists_visits_eq_ok_iff (htree : tree.IsStorable) :
    (∃ visits, tree.visits followLinks room here start = .ok visits) ↔
      tree.Walkable here followLinks start ∧
        tree.visits followLinks room here start ≠ .error .tooDeep := by
  constructor
  · rintro ⟨visits, hvisits⟩
    refine ⟨?_, by simp [hvisits]⟩
    rw [FileTree.visits] at hvisits
    split at hvisits
    · next place links hlocate => exact walkable_of_walk htree (fun _ => hlocate) ⟨visits, hvisits⟩
    · cases hvisits
    · cases hvisits
  · rintro ⟨hwalkable, hroom⟩
    obtain ⟨place, links, hlocate, hwalk⟩ := hwalkable.visits_eq room
    rw [hwalk] at hroom ⊢
    cases hresult : tree.walk followLinks room links place start with
    | ok visits => exact ⟨visits, rfl⟩
    | error fault =>
      have hfault := fault_eq_tooDeep_of_walkable htree (fun _ => hlocate) hwalkable hresult
      exact absurd (hfault ▸ hresult) hroom

/-- A walk that runs out of room comes to a directory as many steps away as there was room. -/
theorem exists_walksIn_of_visits (htree : tree.IsStorable)
    (h : tree.visits followLinks room here start = .error .tooDeep) :
    ∃ directory, tree.WalksIn here followLinks room start directory := by
  rw [FileTree.visits] at h
  split at h
  · next place links hlocate => exact exists_walksIn_of_tooDeep htree (fun _ => hlocate) h
  · cases h
  · cases h

/-- Where every directory can be listed, a walk runs out of room exactly if it comes to a directory
as many steps away as there was room. -/
theorem visits_eq_tooDeep_iff (htree : tree.IsStorable)
    (hwalkable : tree.Walkable here followLinks start) :
    tree.visits followLinks room here start = .error .tooDeep ↔
      ∃ directory, tree.WalksIn here followLinks room start directory := by
  refine ⟨exists_walksIn_of_visits htree, fun ⟨directory, hwalks⟩ => ?_⟩
  by_contra hroom
  obtain ⟨visits, hvisits⟩ := (exists_visits_eq_ok_iff htree).mpr ⟨hwalkable, hroom⟩
  obtain ⟨place, links, hlocate, hwalk⟩ := hwalkable.visits_eq room
  exact not_walksIn_of_walk htree (fun _ => hlocate) ⟨visits, hwalk ▸ hvisits⟩ directory hwalks

/-- The visits of a walk from a path are those of the directories that it comes to. -/
theorem mem_visits_iff (htree : tree.IsStorable) {visits : List Visit} {visit : Visit}
    (h : tree.visits followLinks room here start = .ok visits) :
    visit ∈ visits ↔ ∃ directory there left, tree.WalksTo here followLinks start directory ∧
      tree.locate here directory = .ok { place := there, entry := .directory, links := left } ∧
        visit = tree.visitOf left there directory := by
  rw [FileTree.visits] at h
  split at h
  · next place links hlocate => exact mem_walk_iff_walksTo htree hlocate h
  · cases h
  · cases h

/-- An entry counts as a file unless it is a directory or a link to one that can be looked up. -/
theorem countsAsFile_iff (htree : tree.IsStorable) {entry : Entry}
    (h : tree.locate here text = .ok { place, entry := .directory, links })
    (hentry : tree.entryAt? (place ++ [name]) = some entry) :
    tree.countsAsFile links place text name = true ↔
      entry ≠ .directory ∧ ¬ tree.IsDirectory here (Path.child text name) := by
  rw [isDirectory_child_iff htree h hentry, countsAsFile, hentry]
  cases entry with
  | file bytes => simp
  | directory => simp
  | link target =>
    rw [Option.isNone_iff_eq_none, Option.eq_none_iff_forall_ne_some]
    simp only [ne_eq, linkedDirectory?_eq_some_iff, not_and]
    constructor
    · rintro hnone
      refine ⟨by simp, fun hshort => ?_⟩
      rintro (⟨⟨⟩⟩ | ⟨_, left, there, ⟨rfl⟩, hfollow⟩)
      exact hnone _ hshort hfollow rfl
    · rintro ⟨-, hnone⟩ ⟨there, entry, left⟩ hshort hfollow rfl
      exact hnone hshort (.inr ⟨target, left, there, rfl, hfollow⟩)

/-- The files of a visit are the entries of the directory that neither are a directory nor lead to
one. -/
theorem mem_files_visitOf_iff (htree : tree.IsStorable)
    (h : tree.locate here text = .ok { place, entry := .directory, links }) :
    name ∈ (tree.visitOf links place text).files ↔
      ∃ entry, tree.HasEntry here text name entry ∧ entry ≠ .directory ∧
        ¬ tree.IsDirectory here (Path.child text name) := by
  rw [visitOf, List.mem_filter, mem_namesIn]
  constructor
  · rintro ⟨⟨entry, hentry⟩, hcounts⟩
    exact ⟨entry, (hasEntry_iff h).mpr hentry, (countsAsFile_iff htree h hentry).mp hcounts⟩
  · rintro ⟨entry, hentry, hkept⟩
    rw [hasEntry_iff h] at hentry
    exact ⟨⟨entry, hentry⟩, (countsAsFile_iff htree h hentry).mpr hkept⟩

end Walk

end FileTree

end ElmReach
