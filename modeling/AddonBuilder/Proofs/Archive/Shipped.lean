import AddonBuilder.Proofs.Archive.Entries
import AddonBuilder.Proofs.Linker.Contents
import AddonBuilder.Proofs.Linker.Search
import AddonBuilder.Proofs.Linker.Sources
import AddonBuilder.Proofs.Package.Build

/-!
# What is shipped is what is used

An add-on is linked, its packages are built, and an archive is written that is limited to the files
that linking used (`Shipping`).
-/

namespace AddonBuilder.Extension

open Json Text Assoc Package Value
open AddonBuilder.Path (IsName Bare below)
open AddonBuilder.Linker (Met FoundIn fileName)

variable {files : Files} {x : String × String} {s : Shipment}

/-- A run from the modules of an add-on to its archive. -/
structure Shipping where
  setting : Linker.Setting
  scope : Linker.Scope
  depth : Nat
  manifest : Linker.Manifest
  linked : Linker.link setting scope depth = (.ok (), manifest)
  used : List String
  uses : manifest.usedFiles true = .ok used
  tests : Package.Scope
  target : Text
  build : Package.Build
  pkgs : Package.Packages
  built : Package.build setting.files tests setting.pkgs target
    (manifest.pkgs.map ofString) = .ok (build, pkgs)
  shipment : Shipment
  limited : shipment.limit = some used
  withLibrary : shipment.withLibrary = true
  options : Members
  sections : get? options "packages" = get? build.members "packages"
  archive : Archive
  left : Members
  written : entries setting.files shipment options = .ok (archive, left)

namespace Shipping

variable (run : Shipping)

variable {path dir : String} {pkg sec : Text} {way : List String} {e : Archive.Entry}
  {cfg : Config} {m : Linker.Module}

/-- What is expected of the file tree and of the directories that are walked. -/
structure Tidy : Prop where
  sound : run.setting.files.tree.Sound
  named : run.setting.files.tree.Named
  template : Bare run.shipment.template
  dirs : ∀ pkg sec dir, run.build.Registers pkg sec dir → Bare dir

/-- What is expected of the packages: each goes by its name, and lists its directories. -/
structure Filed : Prop where
  named : ∀ key cfg pkg, get? run.setting.pkgs key = some cfg →
    Package.name cfg = .ok pkg → ofString pkg.display = key
  listed : ∀ key cfg sec t, get? run.setting.pkgs key = some cfg →
    sec ∈ ["tests", "lib"] → get? cfg (ofString sec) ≠ some (.text t)

/-- An entry for a used file: it stands at a kept way below the directory of a section, and the entry
has its content, under the names of the package and the section. -/
def Ships (e : Archive.Entry) : Prop :=
  ∃ pkg sec dir way content, run.build.Registers pkg sec dir ∧ Kept run.shipment way ∧
    below dir way ∈ run.used ∧
    run.setting.files.read? (below dir way) = some content ∧
    e = ⟨below "resources" (pkg.display :: sec.display :: way), content, some copiedMode⟩

/-- The build knows the directory of the section to which a module belongs. -/
def Registers (p : Linker.Place) (dir : String) : Prop :=
  run.build.Registers (ofString p.pkg) (ofString p.sec) dir

/-- The archive has a file with a content in the section of a module. -/
def Carries (p : Linker.Place) (way : List String) (content : Bytes) : Prop :=
  ⟨below "resources" (p.pkg :: p.sec :: way), content, some copiedMode⟩ ∈ run.archive

theorem orderly : run.build.Orderly run.setting.pkgs := (Package.build_spec run.built).1

theorem read?_of_mem_used (hpath : path ∈ run.used) :
    ∃ content, run.setting.files.read? path = some content :=
  Linker.exists_of_mem_usedFiles run.uses (Linker.link_backed run.linked) hpath

/-- The planned files of sections. -/
def resourceFiles : List (String × String) :=
  packageFiles run.setting.files run.shipment run.build.pkgs

/-- The planned files beside those of sections. -/
def otherFiles : Assoc String String :=
  merge (merge [] (chromeFiles run.setting.files run.shipment))
    (templateFiles run.setting.files run.shipment)

theorem exists_plan : ∃ (plan : Plan) (body : Archive),
    plan.files = merge run.otherFiles run.resourceFiles ∧
    planEntries run.setting.files plan.withParents = .ok body ∧ (∀ e ∈ body, e ∈ run.archive) ∧
    ∀ e ∈ run.archive, e ∈ body ∨ beginsWith e.name "resources/" = false := by
  obtain ⟨value, plan, -, members, front, body, bytes, hvalue, hplan, -, -, hbody, hfront,
    harchive⟩ := entries_eq run.written
  rw [run.sections] at hvalue
  obtain rfl := Option.some.inj hvalue
  have hall : shippedPackages run.shipment run.build.pkgs = run.build.pkgs := by
    rw [shippedPackages, run.withLibrary]
    exact List.filter_eq_self.2 fun _ _ => rfl
  cases (plan_eq ..).symm.trans hplan
  refine ⟨_, body, ?_, hbody, fun e he => by simp [harchive, he], fun e he => ?_⟩
  · unfold plannedFiles ofList
    rw [merge_append, merge_append, hall]
    rfl
  · simp only [harchive, List.mem_append, List.mem_singleton] at he
    rcases he with (he | he) | rfl
    · have hlabel := hfront ▸ List.mem_map_of_mem (f := label) he
      exact .inr (beginsWith_resources_of_head (head?_of_mem_frontLabels hlabel))
    · exact .inl he
    · exact .inr (beginsWith_resources_of_head
        (show "harness-options.json".toList.head? ≠ _ by decide))

variable {run}

theorem names_of_registers
    (hregisters : run.build.Registers pkg sec dir) (hway : ∀ n ∈ way, IsName n) :
    ∀ n ∈ "resources" :: pkg.display :: sec.display :: way, IsName n := by
  obtain ⟨⟨-, hpkg⟩, -, hsection⟩ := run.orderly.isName hregisters
  intro n hn
  simp only [List.mem_cons] at hn
  rcases hn with rfl | rfl | rfl | hn
  · decide
  · exact hpkg
  · exact hsection
  · exact hway n hn

/-- A name below `resources` belongs to one file of one directory. -/
theorem eq_of_name_eq {pkg' section' : Text} {dir' : String}
    {way' : List String} (h : run.build.Registers pkg sec dir)
    (h' : run.build.Registers pkg' section' dir') (hway : ∀ n ∈ way, IsName n)
    (hway' : ∀ n ∈ way', IsName n)
    (hname : below "resources" (pkg.display :: sec.display :: way) =
      below "resources" (pkg'.display :: section'.display :: way')) :
    dir = dir' ∧ way = way' := by
  have hsplit := congrArg Path.names hname
  rw [names_below_name (names_of_registers h hway),
    names_below_name (names_of_registers h' hway')] at hsplit
  simp only [List.cons.injEq, true_and] at hsplit
  obtain ⟨hpkg, hsection, rfl⟩ := hsplit
  obtain ⟨⟨hshown, -⟩, hshownSection, -⟩ := run.orderly.isName h
  obtain ⟨⟨hshown', -⟩, hshownSection', -⟩ := run.orderly.isName h'
  obtain rfl : pkg = pkg' := by rw [← hshown, hpkg, hshown']
  obtain rfl : sec = section' := by rw [← hshownSection, hsection, hshownSection']
  exact ⟨h.unique h', rfl⟩

variable (htidy : run.Tidy)

include htidy

theorem mem_resourceFiles_iff {x : String × String} :
    x ∈ run.resourceFiles ↔
      ∃ pkg sec dir way, run.build.Registers pkg sec dir ∧
        Kept run.shipment way ∧ below dir way ∈ run.used ∧
        x = (below "resources" (pkg.display :: sec.display :: way), below dir way) := by
  have hlimit : ∀ path, run.shipment.limit.all (·.contains path) ↔ path ∈ run.used := by
    intro path
    rw [run.limited]
    simp
  unfold resourceFiles packageFiles
  simp only [List.mem_flatMap]
  constructor
  · rintro ⟨⟨pkg, sections⟩, hpkg, ⟨sec, dir⟩, hsection, hx⟩
    have hregisters : run.build.Registers pkg sec dir :=
      run.orderly.registers_iff.2 ⟨sections, hpkg, hsection⟩
    obtain ⟨way, hway, -, hused, rfl⟩ := (mem_sectionFiles_iff htidy.sound htidy.named
      (htidy.dirs _ _ _ hregisters)).1 hx
    exact ⟨pkg, sec, dir, way, hregisters, hway, (hlimit _).1 hused, rfl⟩
  · rintro ⟨pkg, sec, dir, way, hregisters, hway, hused, rfl⟩
    obtain ⟨sections, hpkg, hsection⟩ := run.orderly.registers_iff.1 hregisters
    obtain ⟨content, hread⟩ := run.read?_of_mem_used hused
    refine ⟨(pkg, sections), hpkg, (sec, dir), hsection, ?_⟩
    exact (mem_sectionFiles_iff htidy.sound htidy.named (htidy.dirs _ _ _ hregisters)).2
      ⟨way, hway, Files.isFile_of_read? hread, (hlimit _).2 hused, rfl⟩

/-- What is planned below `resources` beside the sections is a file of the template. -/
theorem exists_of_get?_otherFiles {name : String} (hget : get? run.otherFiles name = some path) :
    ∃ first rest, name = below first rest ∧ (∀ n ∈ first :: rest, IsName n) ∧
      (first = "resources" → run.setting.files.isFile (run.shipment.template ++ "/" ++ name)) := by
  rcases mem_of_get?_merge hget with htemplate | hget
  · obtain ⟨first, rest, hname, hnames, hfile, hpath⟩ :=
      exists_of_mem_templateFiles htidy.sound htidy.named htidy.template htemplate
    exact ⟨first, rest, hname, hnames, fun _ => hpath ▸ hfile⟩
  · rcases mem_of_get?_merge hget with hchrome | hget
    · obtain ⟨first, rest, hname, hnames, -, hfirst⟩ :=
        exists_of_mem_chromeFiles htidy.sound htidy.named hchrome
      exact ⟨first, rest, hname, hnames, fun h => absurd h hfirst⟩
    · cases hget

/-- **Used files are shipped.** -/
theorem mem_archive_of_ships (h : run.Ships e) :
    e ∈ run.archive ∧ e.isDir = false ∧ beginsWith e.name "resources/" := by
  obtain ⟨pkg, sec, dir, way, content, hregisters, hway, hused, hread, rfl⟩ := h
  obtain ⟨plan, body, hfiles, hbody, hto, -⟩ := run.exists_plan
  have hnames := names_of_registers hregisters hway.1
  have hpair := (mem_resourceFiles_iff htidy).2 ⟨pkg, sec, dir, way, hregisters, hway, hused, rfl⟩
  have hget := get?_merge_of_mem (m := run.otherFiles) hpair fun path hpath => by
    obtain ⟨_, _, _, _, hregisters', hway', -, hpair'⟩ := (mem_resourceFiles_iff htidy).1 hpath
    obtain ⟨hname, rfl⟩ := Prod.mk.inj hpair'
    obtain ⟨rfl, rfl⟩ := eq_of_name_eq hregisters hregisters' hway.1 hway'.1 hname
    rfl
  rw [← hfiles] at hget
  obtain ⟨e, he, hcopied⟩ := (planEntries_spec hbody).2 _ _ hget
  rw [copied_of_read? hread, storedName_below hnames] at hcopied
  refine ⟨Except.ok.inj hcopied ▸ hto e he, ?_, ?_⟩
  · have hbare : Bare (below "resources" (pkg.display :: sec.display :: way)) :=
      Bare.below (by decide) fun n hn => hnames n (List.mem_cons_of_mem _ hn)
    simpa [Archive.Entry.isDir] using hbare.getLast?_ne
  · exact (beginsWith_resources_iff hnames).2 ⟨rfl, List.cons_ne_nil _ _⟩

/-- **Only used files are shipped**, apart from files of the template. -/
theorem ships_of_mem_archive (hmem : e ∈ run.archive)
    (hfile : e.isDir = false) (hresources : beginsWith e.name "resources/") :
    run.Ships e ∨ run.setting.files.isFile (run.shipment.template ++ "/" ++ e.name) := by
  obtain ⟨plan, body, hfiles, hbody, -, hfrom⟩ := run.exists_plan
  have hbodyMem : e ∈ body := by
    grind
  obtain ⟨name, path, hget, hcopied⟩ := (planEntries_spec hbody).1 e hbodyMem hfile
  rw [show plan.withParents.files = plan.files from rfl, hfiles] at hget
  rcases mem_of_get?_merge hget with hsection | hother
  · obtain ⟨pkg, sec, dir, way, hregisters, hway, hused, hpair⟩ :=
      (mem_resourceFiles_iff htidy).1 hsection
    obtain ⟨rfl, rfl⟩ := Prod.mk.inj hpair
    obtain ⟨content, hread⟩ := run.read?_of_mem_used hused
    left
    refine ⟨pkg, sec, dir, way, content, hregisters, hway, hused, hread, ?_⟩
    rw [copied_of_read? hread, storedName_below (names_of_registers hregisters hway.1)] at hcopied
    exact (Except.ok.inj hcopied).symm
  · obtain ⟨first, rest, rfl, hnames, htemplate⟩ := exists_of_get?_otherFiles htidy hother
    have hname : e.name = below first rest := by
      have hlabel := label_of_copied hcopied
      rw [storedName_below hnames] at hlabel
      cases hdir : run.setting.files.isDir path with
      | false => exact congrArg Prod.fst (hdir ▸ hlabel)
      | true =>
        have hslash : e.name = below first rest ++ "/" := congrArg Prod.fst (hdir ▸ hlabel)
        simp [Archive.Entry.isDir, hslash] at hfile
    rw [hname] at hresources ⊢
    exact .inr (htemplate ((beginsWith_resources_iff hnames).1 hresources).1)

omit htidy

/-! ## Modules and their files -/

theorem dir_of_described {sec : String} (hfiled : run.Filed) {key : Text}
    (hcfg : get? run.setting.pkgs key = some cfg)
    (hname : Package.name cfg = .ok pkg)
    (hregisters : run.build.Registers (ofString pkg.display) (ofString sec) dir) :
    ∃ v, Package.sectionValues cfg sec = .ok [v] ∧ Package.resolve cfg v = .ok dir := by
  generalize hpkg : ofString pkg.display = shown at hregisters
  generalize hsection : ofString sec = shownSection at hregisters
  obtain ⟨hcfg', hname', -, hvalues, hdir⟩ := run.orderly.described _ _ _ hregisters
  rename_i key' cfg' section' v
  obtain rfl : sec = section' := by
    rw [← display_ofString sec, hsection, display_ofString]
  -- Both descriptions are filed under the name that is registered.
  have hkey : shown = key := by rw [← hpkg, hfiled.named key cfg pkg hcfg hname]
  have hkey' : shown = key' := by
    rw [← hfiled.named key' cfg' shown hcfg' hname', ← hpkg, display_ofString]
  rw [← hkey', hkey, hcfg] at hcfg'
  cases hcfg'
  exact ⟨v, hvalues, hdir⟩

/-- The directories in which modules are looked for are those that a description lists. -/
theorem mem_sectionValues {sec : String} {values : List Value}
    (hlist : ∀ t, get? cfg (ofString sec) ≠ some (.text t))
    (hvalues : sectionValues cfg sec = .ok values) {dir : Text}
    (hdir : dir ∈ Linker.dirsOf cfg sec) : text dir ∈ values := by
  unfold Linker.dirsOf at hdir
  cases hget : get? cfg (ofString sec) with
  | none =>
    rw [hget] at hdir
    cases hdir
  | some w =>
    have hwhole : sectionValues cfg sec = asElements w := by
      unfold sectionValues
      rw [hget]
      cases w with
      | text t => exact absurd hget (hlist t)
      | _ => rfl
    rw [hwhole] at hvalues
    rw [hget] at hdir
    dsimp only at hdir
    rw [hvalues, ok_bind] at hdir
    cases htexts : values.mapM asText with
    | error fault =>
      rw [htexts] at hdir
      cases hdir
    | ok texts =>
      rw [htexts] at hdir
      obtain ⟨v, hv, htext⟩ := exists_of_mem_mapM htexts hdir
      cases v with
      | text t =>
        cases htext
        exact hv
      | _ => cases htext

theorem resolve_text {root : String} (hroot : rootDir cfg = .ok root) (dir : Text) :
    resolve cfg (.text dir) = .ok (Path.join root dir.display) := by
  rw [resolve, hroot, ok_bind]
  rfl

/-- **A module that was found lies in the directory that is registered for its section**, at the
name by which it was found. -/
theorem file_of_found (hfiled : run.Filed) (hfound : FoundIn run.setting m)
    (hregisters : run.Registers m.toPlace dir) :
    m.file = Path.join dir (fileName m.name).1 := by
  obtain ⟨hcfg, hroot, hname, hsection, hdir, -, -⟩ := hfound
  rename_i key pkg listed cfg root sec name documentation
  obtain ⟨v, hvalues, hresolved⟩ := dir_of_described hfiled hcfg hname hregisters
  have hlisted := mem_sectionValues (fun t => hfiled.listed key cfg sec t hcfg hsection)
    hvalues hdir
  obtain rfl : text listed = v := List.mem_singleton.1 hlisted
  rw [resolve_text hroot] at hresolved
  cases hresolved
  rfl

/-- The library section of a module that was found is registered. -/
theorem registers_of_found (hfiled : run.Filed) {entry : Linker.Entry}
    (hmem : (m.toPlace, entry) ∈ run.manifest.entries) (hfound : FoundIn run.setting m)
    (hlib : m.sec = "lib") : ∃ dir, run.Registers m.toPlace dir := by
  have hused : ofString m.pkg ∈ run.manifest.pkgs.map ofString := by
    refine List.mem_map_of_mem ?_
    rw [Linker.Manifest.pkgs, sortedStrings_eq, List.mem_insertionSort, List.mem_eraseDups]
    exact List.mem_map.2 ⟨_, hmem, rfl⟩
  obtain ⟨cfg', hcfg', values, hvalues, hknown⟩ := (Package.build_spec run.built).2 _ hused
  obtain ⟨hcfg, hroot, hname, hsection, hdir, -, -⟩ := hfound
  rename_i key pkg listed cfg root sec name documentation
  obtain rfl : sec = "lib" := hlib
  have hkey : ofString pkg.display = key := hfiled.named key cfg pkg hcfg hname
  have hsame : get? run.setting.pkgs (ofString pkg.display) = some cfg' :=
    hcfg'
  rw [hkey, hcfg] at hsame
  obtain rfl : cfg = cfg' := Option.some.inj hsame
  have hlisted := mem_sectionValues (fun t => hfiled.listed key cfg "lib" t hcfg hsection)
    hvalues hdir
  obtain ⟨dir, owner, -, howner, hregisters⟩ := hknown _ hlisted
  rw [hname] at howner
  cases howner
  refine ⟨dir, ?_⟩
  show run.build.Registers (ofString pkg.display) (ofString "lib") dir
  rw [(run.orderly.isName hregisters).1.1]
  exact hregisters

theorem join_eq_below {file : String} (hdir : Bare dir) (hnames : ∀ n ∈ Path.names file, IsName n) :
    Path.join dir file = below dir (Path.names file) := by
  have hne := Path.names_ne_nil file
  have hrel : Path.isAbsolute file = false := by
    rw [← Bool.not_eq_true]
    intro habsolute
    obtain ⟨t, rfl⟩ := beginsWith_iff.1 habsolute
    have hempty : "" ∈ Path.names ("" ++ "/" ++ t) := by
      rw [Path.names_append_slash]
      exact List.mem_append_left _ (by decide)
    exact (hnames "" (by rwa [String.empty_append] at hempty)).1.1 rfl
  rw [Path.join, hrel, hdir.1, hdir.2, Path.below_eq dir hne, Path.joinStrings_names]
  rfl

end Shipping

/-! ## A small add-on -/

/-- The description of a package with a main module. -/
def smallConfig : Config :=
  [("name", str "addon"), ("root_dir", str "/a"),
    ("lib", .array [str "/a/lib"]), ("main", str "main"), ("dependencies", .array []),
    ("loader", str "lib/main.js")]

/-- An add-on whose main module asks for a part and for a hidden module.  One module is not asked
for. -/
def small : Linker.Setting where
  files := {
    tree := [(["a"], .dir), (["a", "lib"], .dir), (["a", "lib", "part"], .dir),
      Linker.source ["a", "lib", "main.js"] "require('./part/one');require('./.hidden')",
      Linker.source ["a", "lib", "part", "one.js"] "exports.one = 1;",
      Linker.source ["a", "lib", "part", "two.js"] "",
      Linker.source ["a", "lib", ".hidden.js"] "",
      (["template"], .dir), Linker.source ["template", "bootstrap.js"] ""] }
  target := smallConfig
  pkgs := [("addon", smallConfig)]
  available := []

def smallUsed : List String := ["/a/lib/main.js", "/a/lib/.hidden.js", "/a/lib/part/one.js"]

def smallShipment : Shipment where
  template := "/template"
  description := []
  target := "/addon.xpi"
  limit := some smallUsed

def smallSections : Assoc Text (Assoc Text String) :=
  [(ofString "addon", [(ofString "lib", "/a/lib")])]

def smallOptions : Members :=
  [(ofString "packages", packagesValue smallSections), (ofString "locale", .object [])]

theorem link_small : (Linker.link small {} 3).1.isOk ∧
    ((Linker.link small {} 3).2.usedFiles true).toOption = some smallUsed ∧
    (Linker.link small {} 3).2.pkgs = ["addon"] ∧
    (Linker.link small {} 3).2.entries.map (fun x => (x.1, x.2.source.map (·.file))) =
      [(⟨"addon", "lib", "main"⟩, some "/a/lib/main.js"),
        (⟨"addon", "lib", ".hidden"⟩, some "/a/lib/.hidden.js"),
        (⟨"addon", "lib", "part/one"⟩, some "/a/lib/part/one.js")] := by
  decide +kernel

theorem build_small :
    (build small.files {} small.pkgs "addon" ["addon"]).toOption.map (·.1.pkgs) =
      some smallSections := by
  decide +kernel

theorem registers_small {b : Build} (hb : b.pkgs = smallSections) {pkg sec : Text} {dir : String} :
    b.Registers pkg sec dir ↔ pkg = ofString "addon" ∧ sec = ofString "lib" ∧ dir = "/a/lib" := by
  unfold Build.Registers
  rw [hb, smallSections]
  constructor
  · rintro ⟨sections, hsections, hdir⟩
    obtain ⟨rfl, rfl⟩ := Prod.mk.inj (List.mem_singleton.1 (mem_of_get? hsections))
    obtain ⟨rfl, rfl⟩ := Prod.mk.inj (List.mem_singleton.1 (mem_of_get? hdir))
    exact ⟨rfl, rfl, rfl⟩
  · rintro ⟨rfl, rfl, rfl⟩
    exact ⟨_, if_pos rfl, if_pos rfl⟩

variable {run : Shipping}

theorem filed_of_small (hsetting : run.setting = small) : run.Filed := by
  have honly : ∀ key cfg, get? run.setting.pkgs key = some cfg →
      key = ofString "addon" ∧ cfg = smallConfig := by
    intro key cfg hcfg
    rw [hsetting] at hcfg
    exact Prod.mk.inj (List.mem_singleton.1 (mem_of_get? hcfg))
  refine ⟨fun key cfg pkg hcfg hname => ?_, fun key cfg sec t hcfg hsection htext => ?_⟩
  · obtain ⟨rfl, rfl⟩ := honly key cfg hcfg
    have haddon : name smallConfig = .ok (ofString "addon") := rfl
    rw [haddon] at hname
    cases hname
    rw [display_ofString]
  · obtain ⟨rfl, rfl⟩ := honly key cfg hcfg
    have htests : get? smallConfig (ofString "tests") = none := rfl
    have hlib : get? smallConfig (ofString "lib") = some (.array [str "/a/lib"]) := rfl
    grind

theorem entries_small : (entries small.files smallShipment smallOptions).toOption.any (fun x =>
    x.2.isEmpty ∧ "resources/addon/lib/part/two.js" ∉ x.1.names ∧
      "resources/addon/lib/.hidden.js" ∉ x.1.names) := by
  decide +kernel

theorem exists_shipping_small : ∃ run : Shipping, run.setting = small ∧
    run.manifest = (Linker.link small {} 3).2 ∧ run.used = smallUsed ∧
    run.build.pkgs = smallSections ∧ run.shipment = smallShipment ∧ run.Tidy ∧ run.Filed ∧
    "resources/addon/lib/part/two.js" ∉ run.archive.names ∧
    "resources/addon/lib/.hidden.js" ∉ run.archive.names := by
  obtain ⟨hok, hused, hpkgs, -⟩ := link_small
  obtain ⟨⟨b, pkgs⟩, hbuild, hb⟩ := Option.map_eq_some_iff.1 build_small
  obtain ⟨⟨archive, left⟩, harchive, hnames⟩ := (Option.any_eq_true _ _).1 entries_small
  obtain ⟨hleft, htwo, hhidden⟩ := of_decide_eq_true hnames
  obtain rfl := List.isEmpty_iff.1 hleft
  refine ⟨{
    setting := small, scope := {}, depth := 3
    manifest := (Linker.link small {} 3).2, linked := Linker.ok_of_isOk hok
    used := smallUsed, uses := toOption_eq_some_iff.1 hused
    tests := {}, target := "addon", build := b, pkgs
    built := by rw [hpkgs]; exact toOption_eq_some_iff.1 hbuild
    shipment := smallShipment, limited := rfl, withLibrary := rfl
    options := smallOptions, sections := ?_
    archive, left := [], written := toOption_eq_some_iff.1 harchive },
    rfl, rfl, rfl, hb, rfl, ?_, filed_of_small rfl, htwo, hhidden⟩
  · have hb : b.pkgs = smallSections := hb
    unfold Build.members
    rw [hb]
    rfl
  · have hneat : Neat small.files smallShipment smallSections :=
      ⟨by decide +kernel, by decide +kernel, by decide, by decide⟩
    refine ⟨hneat.sound, hneat.named, hneat.template, fun pkg sec dir h => ?_⟩
    obtain ⟨-, -, rfl⟩ := (registers_small hb).1 h
    decide

theorem exists_entry_small {σ : Linker.Manifest} (hσ : σ = (Linker.link small {} 3).2)
    (p : Linker.Place) (path : String)
    (h : (p, some path) ∈ [((⟨"addon", "lib", "main"⟩ : Linker.Place), some "/a/lib/main.js"),
      (⟨"addon", "lib", ".hidden"⟩, some "/a/lib/.hidden.js"),
      (⟨"addon", "lib", "part/one"⟩, some "/a/lib/part/one.js")]) :
    ∃ entry source, (p, entry) ∈ σ.entries ∧ entry.source = some source ∧ source.file = path := by
  rw [← link_small.2.2.2, ← hσ] at h
  obtain ⟨⟨p', entry⟩, hmem, heq⟩ := List.mem_map.1 h
  obtain ⟨rfl, hsource⟩ := Prod.mk.inj heq
  obtain ⟨source, hsource, hfile⟩ := Option.map_eq_some_iff.1 hsource
  exact ⟨entry, source, hmem, hsource, hfile⟩

end AddonBuilder.Extension
