import ElmReach.Proofs.BuildStages

/-!
# A build stays inside its root

Source directories are resolved before they are compared with the root, name by name, and links to
directories are not entered. So the source directories of a project, and the directories in which
its files stand, are places at or below the root that no link leads to, however the directories were
written.
-/

namespace ElmReach

/-- The directory in which a path stands: its parts without the last one. -/
def Path.parent (path : Path) : Path :=
  { path with parts := path.parts.dropLast }

namespace Project

/-- If the path can be resolved, no link is left in what it stands for. A path can be resolved with
links left only if it runs through a link that leads back to itself. -/
def ResolvesFully (host : Host) (path : String) : Prop :=
  ∀ found, host.resolve path = .ok found →
    found.anchor = .root ∧ host.tree.LinkFree found.parts

/-- The path stands for itself, no link lies on its way, and it has the names of the root in
front. -/
structure IsInside (host : Host) (root path : Path) : Prop where
  resolves : host.resolve path.render = .ok path
  linkFree : host.tree.LinkFree path.parts
  below : root.parts <+: path.parts

variable {host : Host} {settings : Settings} {config : ProjectConfig} {past : List LogRecord}
  {root : Path} {project : Project} {directory text file : String}

/-- A path that runs through no link that leads back to itself is resolved fully. -/
theorem resolvesFully_of_settle {path : String} {there : FileTree.Waypoint}
    (hhere : host.tree.LinkFree host.here)
    (hsettled : host.tree.settle host.room.links []
      ((FileTree.Waypoint.ofPlace host.here).start path) (FileTree.splitSteps path) =
        .fully there) :
    ResolvesFully host path :=
  fun _ hfound => FileTree.linkFree_of_resolve hhere hsettled hfound

/-- A place below the root that has no links on its way lies inside of the root. -/
theorem isInside_of_place {place : Place} (hproper : place.IsProper)
    (hfree : host.tree.LinkFree place) (hbelow : root.parts <+: place) :
    IsInside host root { anchor := .root, parts := place } where
  resolves := FileTree.resolve_render hproper hfree host.here
  linkFree := hfree
  below := hbelow

/-- A source directory is the text of a place at or below the root, to which no link leads. -/
theorem Built.exists_place (hbuilt : Built host settings config root project) (hhost : host.IsSound)
    (hresolve : ∀ directory ∈ config.sourceDirs,
      ResolvesFully host (root.append (.ofString directory)).render)
    (htext : text ∈ project.sourceDirs) :
    ∃ place : Place, place.render = text ∧ place.IsProper ∧ host.tree.LinkFree place ∧
      root.anchor = .root ∧ root.parts <+: place := by
  obtain ⟨directory, hdirectory, ⟨anchor, place⟩, hwithin, rfl⟩ :=
    (hbuilt.mem_sourceDirs text).mp htext
  obtain ⟨hfound, hanchor, hbelow⟩ := pathWithin?_eq_some_iff.mp hwithin
  have hresolved := resolveIn_eq_ok_iff.mp hfound
  obtain ⟨rfl, hfree⟩ := hresolve directory hdirectory _ hresolved
  obtain ⟨-, hproper⟩ := FileTree.isProper_of_resolve hhost.here hresolved
  exact ⟨place, rfl, hproper, hfree, hanchor.symm, hbelow⟩

/-- A file is the text of an entry of a place at or below a source directory. The walk follows no
links, so that it stays below. -/
theorem Built.exists_place_of_file (hbuilt : Built host settings config root project)
    (hhost : host.IsSound) (hlinks : settings.followLinks = false)
    (hresolve : ∀ directory ∈ config.sourceDirs,
      ResolvesFully host (root.append (.ofString directory)).render)
    (hfile : file ∈ project.files) :
    ∃ (place : Place) (name : String), Place.render (place ++ [name]) = file ∧
      Place.IsProper (place ++ [name]) ∧ host.tree.LinkFree place ∧ root.parts <+: place := by
  rw [hbuilt.files, Text.mem_sortedSet] at hfile
  obtain ⟨directory, hdirectory, hlisted⟩ := List.mem_flatMap.mp hfile
  obtain ⟨start, rfl, hstart, hfree, -, hbelow⟩ := hbuilt.exists_place hhost hresolve hdirectory
  rw [Place.collapsed_render hstart] at hlisted
  obtain ⟨visits, hvisits, visit, hvisit, name, hname, rfl⟩ :=
    SourceScan.exists_visit_of_mem_listed hlisted
  rw [scan, hlinks] at hvisits
  obtain ⟨⟨place, hstart', hproper, hfree', hplace⟩, hnames⟩ :=
    FileTree.isInside_of_mem_visits hhost.tree hstart hfree hvisits hvisit
  refine ⟨place, name, ?_, ?_, hfree', hbelow.trans hstart'⟩
  · rw [hplace, Place.child_render hproper]
  · exact hproper.append fun _ hother => List.mem_singleton.mp hother ▸ hnames name hname

/-- A project that is built without following links lies inside its root. Its source directories and
the directories of its files stand for themselves, have no link on their way and have the names of
the root in front. The source directories are what the declared directories inside the root resolve
to; a declared directory that cannot be resolved, or that leads elsewhere, is not among them. There
is at least one source directory. -/
theorem build_inside_root (hhost : host.IsSound) (hlinks : settings.followLinks = false)
    (hresolve : ∀ root, resolveRoot host config.root = .ok root →
      ∀ directory ∈ config.sourceDirs,
        ResolvesFully host (root.append (.ofString directory)).render)
    (hbuild : (build host settings config past).outcome = .ok project) :
    ∃ root, resolveRoot host config.root = .ok root ∧ project.root = root.render ∧
      project.sourceDirs ≠ [] ∧
      (∀ text ∈ project.sourceDirs, IsInside host root (Path.ofString text)) ∧
      (∀ file ∈ project.files, IsInside host root (Path.ofString file).parent) ∧
      (∀ text, text ∈ project.sourceDirs ↔ ∃ directory ∈ config.sourceDirs, ∃ found,
        host.resolve (root.append (.ofString directory)).render = .ok found ∧
          root.parts <+: found.parts ∧ found.render = text) ∧
      ∀ directory ∈ config.sourceDirs,
        (∀ fault,
          host.resolve (root.append (.ofString directory)).render = .error fault →
            (root.append (.ofString directory)).render ∉ project.sourceDirs) ∧
        ∀ found,
          host.resolve (root.append (.ofString directory)).render = .ok found →
            ¬ root.parts <+: found.parts →
              found.render ∉ project.sourceDirs ∧
                (root.append (.ofString directory)).render ∉ project.sourceDirs := by
  obtain ⟨root, hbuilt⟩ := exists_built hbuild
  have hfully := hresolve root hbuilt.resolved
  have hdirs (text : String) (htext : text ∈ project.sourceDirs) :
      IsInside host root (Path.ofString text) ∧ (Path.ofString text).render = text := by
    obtain ⟨place, rfl, hproper, hfree, -, hbelow⟩ := hbuilt.exists_place hhost hfully htext
    rw [Place.ofString_render hproper]
    exact ⟨isInside_of_place hproper hfree hbelow, rfl⟩
  -- A source directory stands for itself, so it cannot stand for anything else.
  have hself {text : String} {found : Path} (htext : text ∈ project.sourceDirs)
      (hfound : host.resolve text = .ok found) : root.parts <+: found.parts := by
    obtain ⟨hinside, hrender⟩ := hdirs text htext
    have hresolves := hinside.resolves
    rw [hrender, hfound] at hresolves
    exact Except.ok.inj hresolves ▸ hinside.below
  obtain ⟨first, hfirst⟩ := List.exists_mem_of_ne_nil _ hbuilt.sourceDirs_ne_nil
  obtain ⟨-, -, -, -, hanchor, -⟩ := hbuilt.exists_place hhost hfully hfirst
  refine ⟨root, hbuilt.resolved, hbuilt.rootText, hbuilt.sourceDirs_ne_nil,
    fun text htext => (hdirs text htext).1, fun file hfile => ?_, fun text => ?_,
    fun directory hdirectory => ⟨fun fault hfault hmem => ?_, fun found hfound houtside => ?_⟩⟩
  · obtain ⟨place, name, rfl, hproper, hfree, hbelow⟩ :=
      hbuilt.exists_place_of_file hhost hlinks hfully hfile
    have hplace : place.IsProper := hproper.of_above (by simp)
    rw [Place.ofString_render hproper]
    simpa [Path.parent] using isInside_of_place hplace hfree hbelow
  · rw [hbuilt.mem_sourceDirs]
    refine exists_congr fun directory => and_congr_right fun hdirectory =>
      exists_congr fun found => ?_
    rw [pathWithin?_eq_some_iff, resolveIn_eq_ok_iff, and_assoc, and_assoc]
    refine and_congr_right fun hfound => and_iff_right ?_
    rw [(hfully directory hdirectory found hfound).1, hanchor]
  · obtain ⟨hinside, hrender⟩ := hdirs _ hmem
    have hresolves := hinside.resolves
    rw [hrender, hfault] at hresolves
    cases hresolves
  · refine ⟨fun hmem => ?_, fun hmem => houtside (hself hmem hfound)⟩
    obtain ⟨hroot, hfree⟩ := hfully directory hdirectory found hfound
    obtain ⟨-, hproper⟩ := FileTree.isProper_of_resolve hhost.here hfound
    obtain ⟨anchor, place⟩ := found
    obtain rfl : anchor = .root := hroot
    exact houtside (hself hmem (FileTree.resolve_render hproper hfree host.here))

/-- A project in the directory `p` with modules in two directories, and a link that leads out of
it. -/
def linkedTree : FileTree where
  entries :=
    [(["p"], .directory), (["p", "lib"], .directory), (["p", "lib", "B.elm"], .file []),
      (["p", "out"], .link "/q"), (["p", "src"], .directory), (["p", "src", "A.elm"], .file []),
      (["p", "src", "B.elm"], .file []), (["q"], .directory), (["q", "C.elm"], .file [])]

/-- A host with this tree and no log file. Commands run in the top directory. -/
def linkedHost : Host :=
  { tree := linkedTree, here := [], accountHome := "/", environment := [], time := "" }

/-- A package in this tree, with the given source directories. It exposes one module. -/
def linkedConfig (sourceDirs : List String) : ProjectConfig :=
  { kind := some "package", root := "/p", sourceDirs, exposed := .ungrouped (.one "A") }

/-- The root of the package. No link is on its way, so it is resolved to itself. -/
def linkedRoot : Path :=
  { anchor := .root, parts := ["p"] }

/-- The tree with links is one that a file system can hold. -/
theorem isSound_linkedHost : linkedHost.IsSound where
  tree := by
    have hnames : ∀ entry ∈ linkedTree.entries, Place.IsProper entry.1 := by decide
    refine ⟨fun place entry h => hnames (place, entry) h, fun place target h => ?_⟩
    have hlink : place = ["p", "out"] ∧ target = "/q" := by simpa [linkedHost, linkedTree] using h
    rw [hlink.2]
    decide
  here := Place.isProper_nil

/-- The root of the project stands for itself, as no link is on its way. -/
theorem resolveRoot_linkedHost : resolveRoot linkedHost "/p" = .ok linkedRoot := by
  have htext : Path.tidy "/p" = Place.render ["p"] := by decide +kernel
  rw [resolveRoot, htext]
  exact FileTree.resolve_render (by decide) (by decide) []

/-- Directories of the tree as a configuration may write them, with the places that they stand
for. -/
def linkedDirs : List (String × Place) :=
  [("src", ["p", "src"]), ("lib/../src", ["p", "src"]), ("lib", ["p", "lib"]), ("out", ["q"]),
    ("../q", ["q"])]

/-- All links on the way of these directories can be replaced. -/
theorem settle_linkedHost {directory : String} {place : Place}
    (h : (directory, place) ∈ linkedDirs) :
    ∃ text there, (linkedRoot.append (.ofString directory)).render = text ∧
      linkedTree.settle linkedHost.room.links [] ((FileTree.Waypoint.ofPlace []).start text)
        (FileTree.splitSteps text) = .fully there ∧ there.place = place := by
  simp only [linkedDirs, List.mem_cons, Prod.mk.injEq, List.not_mem_nil, or_false] at h
  rcases h with ⟨rfl, rfl⟩ | ⟨rfl, rfl⟩ | ⟨rfl, rfl⟩ | ⟨rfl, rfl⟩ | ⟨rfl, rfl⟩
  · exact ⟨"/p/src", (FileTree.Waypoint.root.down "p").down "src", by decide +kernel, by cbv, rfl⟩
  · exact ⟨"/p/lib/../src", (FileTree.Waypoint.root.down "p").down "src", by decide +kernel,
      by cbv, rfl⟩
  · exact ⟨"/p/lib", (FileTree.Waypoint.root.down "p").down "lib", by decide +kernel, by cbv, rfl⟩
  · exact ⟨"/p/out", FileTree.Waypoint.root.down "q", by decide +kernel, by cbv, rfl⟩
  · exact ⟨"/p/../q", FileTree.Waypoint.root.down "q", by decide +kernel, by cbv, rfl⟩

/-- Each of the listed directories stands for the place listed beside it, whether or not links or
double dots lead there. -/
theorem resolve_linkedHost {directory : String} {place : Place}
    (h : (directory, place) ∈ linkedDirs) :
    linkedHost.resolve (linkedRoot.append (.ofString directory)).render =
      .ok { anchor := .root, parts := place } := by
  have hplaces : ∀ entry ∈ linkedDirs,
      Place.IsProper entry.2 ∧ linkedTree.LinkFree entry.2 := by decide
  obtain ⟨hproper, hfree⟩ := hplaces _ h
  obtain ⟨text, there, htext, hsettled, rfl⟩ := settle_linkedHost h
  rw [htext]
  exact FileTree.resolve_of_settle hproper hfree hsettled

/-- The directories below the root are accepted. A directory that a link leads to outside of the
root is refused, and so is one beside it. -/
theorem acceptsDir_linkedHost_iff {declared : List String} {text : String}
    (hdeclared : ∀ directory ∈ declared, ∃ place, (directory, place) ∈ linkedDirs) :
    AcceptsDir linkedHost linkedRoot declared text ↔
      ∃ directory ∈ declared, ∃ place, (directory, place) ∈ linkedDirs ∧ ["p"] <+: place ∧
        place.render = text := by
  constructor
  · rintro ⟨directory, hdirectory, found, hwithin, rfl⟩
    obtain ⟨place, hplace⟩ := hdeclared directory hdirectory
    obtain ⟨hfound, -, hbelow⟩ := pathWithin?_eq_some_iff.mp hwithin
    have hresolved := (resolveIn_eq_ok_iff.mp hfound).symm.trans (resolve_linkedHost hplace)
    obtain rfl := Except.ok.inj hresolved
    exact ⟨directory, hdirectory, place, hplace, hbelow, rfl⟩
  · rintro ⟨directory, hdirectory, place, hplace, hbelow, rfl⟩
    refine ⟨directory, hdirectory, { anchor := .root, parts := place }, ?_, rfl⟩
    have hfound := resolveIn_eq_ok_iff.mpr (resolve_linkedHost hplace)
    exact pathWithin?_eq_some_iff.mpr ⟨hfound, rfl, hbelow⟩

/-- No listed directory has a text that a file system cannot be asked for. -/
theorem null_notMem_of_linkedDirs {declared : List String}
    (hdeclared : ∀ directory ∈ declared, ∃ place, (directory, place) ∈ linkedDirs) :
    ∀ directory ∈ declared, '\x00' ∉ directory.toList := by
  intro directory hdirectory
  obtain ⟨place, hplace⟩ := hdeclared directory hdirectory
  have hnull : ∀ entry ∈ linkedDirs, '\x00' ∉ entry.1.toList := by decide
  exact hnull _ hplace

/-- A package in this tree is built, whichever of the listed directories it declares, as long as
`lib` is one of them. -/
theorem exists_build_linkedHost {declared : List String}
    (hdeclared : ∀ directory ∈ declared, ∃ place, (directory, place) ∈ linkedDirs)
    (hlib : "lib" ∈ declared) :
    ∃ project, (build linkedHost .default (linkedConfig declared)).HasOutcome (.ok project) ∧
      project.shape = .package ["A"] := by
  have hnames : ExposedModules.names (.ungrouped (.one "A")) = ["A"] := by decide +kernel
  have hexposed : (linkedConfig declared).exposed.names = ["A"] := hnames
  have haccepts : AcceptsDir linkedHost linkedRoot declared (Place.render ["p", "lib"]) :=
    (acceptsDir_linkedHost_iff hdeclared).mpr ⟨"lib", hlib, _, by decide, by decide, rfl⟩
  rw [← hexposed]
  exact exists_build_eq_ok_of_package isSound_linkedHost rfl (by simp [hexposed])
    resolveRoot_linkedHost (null_notMem_of_linkedDirs hdeclared) ⟨_, haccepts⟩
    (Host.hasRoom (by decide) (by decide)) rfl rfl

/-- A package that declares a directory in a roundabout way, a link out of the root and a directory
beside the root keeps the first of them only, and its files stand inside the root. -/
theorem build_inside_root_of_linkedHost :
    ∃ project, (build linkedHost .default
        (linkedConfig ["lib/../src", "out", "../q", "lib"]) []).outcome = .ok project ∧
      "/p/src" ∈ project.sourceDirs ∧ "/q" ∉ project.sourceDirs ∧
      ∀ file ∈ project.files, IsInside linkedHost linkedRoot (Path.ofString file).parent := by
  have hdeclared : ∀ directory ∈ ["lib/../src", "out", "../q", "lib"],
      ∃ place, (directory, place) ∈ linkedDirs := by
    simp [linkedDirs]
  obtain ⟨project, hproject, -⟩ := exists_build_linkedHost hdeclared (by decide)
  obtain ⟨root, hroot, -, -, -, hfiles, hdirs, hrefused⟩ :=
    build_inside_root isSound_linkedHost rfl (fun root hroot directory hdirectory => by
      obtain rfl := Except.ok.inj (hroot.symm.trans resolveRoot_linkedHost)
      obtain ⟨place, hplace⟩ := hdeclared directory hdirectory
      obtain ⟨text, there, rfl, hsettled, -⟩ := settle_linkedHost hplace
      exact resolvesFully_of_settle FileTree.linkFree_nil hsettled) (hproject [])
  obtain rfl := Except.ok.inj (hroot.symm.trans resolveRoot_linkedHost)
  have hsrc := resolve_linkedHost (by decide : ("lib/../src", ["p", "src"]) ∈ linkedDirs)
  have hout := resolve_linkedHost (by decide : ("out", ["q"]) ∈ linkedDirs)
  have htext : Path.render { anchor := .root, parts := ["p", "src"] } = "/p/src" := by
    decide +kernel
  have hrender : Path.render { anchor := .root, parts := ["q"] } = "/q" := by decide +kernel
  refine ⟨project, hproject [], ?_, ?_, hfiles⟩
  · exact (hdirs "/p/src").mpr ⟨"lib/../src", by decide, _, hsrc, by decide, htext⟩
  · rw [← hrender]
    exact ((hrefused "out" (by decide)).2 _ hout (by decide)).1

end Project

end ElmReach
