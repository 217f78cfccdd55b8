import AddonBuilder.Archive.Extension
import AddonBuilder.Proofs.Files.Walk
import AddonBuilder.Proofs.Text.Utf8

/-!
# Planned files

An archive is planned by walks over several directories, each of which names every file that it
keeps (`listed`).
-/

namespace AddonBuilder.Extension

open Json Assoc Files Path
open AddonBuilder.Path (IsName Bare below)

/-- The way from a directory to a file of it that is shipped: no directory of version control is on
it, and the name at its end is not left out. -/
def Kept (s : Shipment) (way : List String) : Prop :=
  (∀ n ∈ way, IsName n) ∧ (∀ d ∈ way.dropLast, keepsDir d = true) ∧
    way.getLast?.any (keepsFile (ignored s)) = true

instance (s : Shipment) (way : List String) : Decidable (Kept s way) :=
  inferInstanceAs (Decidable (_ ∧ _ ∧ _))

theorem names_of_kept {before : List String} {n : String}
    (hbefore : ∀ d ∈ before, IsName d ∧ keepsDir d) (hn : IsName n) :
    ∀ m ∈ before ++ [n], IsName m := by
  grind

theorem kept_iff {s : Shipment} {way : List String} :
    Kept s way ↔ ∃ before n, way = before ++ [n] ∧
      (∀ d ∈ before, IsName d ∧ keepsDir d) ∧ IsName n ∧
      keepsFile (ignored s) n := by
  constructor
  · intro h
    obtain ⟨hnames, hdirs, hfile⟩ := h
    rcases List.eq_nil_or_concat' way with rfl | ⟨before, n, rfl⟩
    · cases hfile
    · grind
  · rintro ⟨before, n, rfl, hbefore, hn, hfile⟩
    refine ⟨names_of_kept hbefore hn, fun d hd => ?_, by simpa using hfile⟩
    rw [List.dropLast_concat] at hd
    exact (hbefore d hd).2

/-! ## Lists of planned files -/

/-- The names and paths of the files that a walk over a directory keeps. -/
def listed (files : Files) (root : String) (keeps : String → String → Bool)
    (named : String → String) : List (String × String) :=
  (files.walk keepsDir root).flatMap fun v =>
    (v.files.filter (keeps v.path)).map fun n =>
      (named (nameBelow root (join v.path n)), join v.path n)

theorem nameBelow_below (root : String) {way : List String} (hway : way ≠ []) :
    nameBelow root (below root way) = Text.joinStrings "/" way := by
  rw [below_eq root hway, nameBelow, String.append_assoc, String.toList_append,
    String.toList_append, ← String.length_toList, ← List.drop_drop, List.drop_left]
  simp

theorem mem_listed_iff {files : Files} (ht : files.tree.Sound) (hnamed : files.tree.Named)
    {root : String} (hroot : Bare root) {keeps : String → String → Bool} {named : String → String}
    {x : String × String} :
    x ∈ listed files root keeps named ↔ ∃ before n,
      (∀ d ∈ before, IsName d ∧ keepsDir d) ∧ IsName n ∧
        keeps (below root before) n ∧ files.isFile (below root (before ++ [n])) ∧
        x = (named (Text.joinStrings "/" (before ++ [n])), below root (before ++ [n])) := by
  unfold listed
  constructor
  · intro hx
    obtain ⟨v, hv, hx⟩ := List.mem_flatMap.1 hx
    obtain ⟨n, hn, rfl⟩ := List.mem_map.1 hx
    obtain ⟨hn, hkeeps⟩ := List.mem_filter.1 hn
    obtain ⟨before, hbefore, hname, hpath, hjoin, hfile⟩ := exists_of_mem_walk ht hnamed hroot hv hn
    refine ⟨before, n, hbefore, hname, hpath ▸ hkeeps, hfile, ?_⟩
    rw [hjoin, nameBelow_below root (by simp)]
  · rintro ⟨before, n, hbefore, hname, hkeeps, hfile, rfl⟩
    obtain ⟨v, hv, hpath, hn⟩ := exists_visit ht hroot hbefore hname hfile
    refine List.mem_flatMap.2 ⟨v, hv, List.mem_map.2 ⟨n, List.mem_filter.2 ⟨hn, ?_⟩, ?_⟩⟩
    · rwa [hpath]
    · rw [hpath, hroot.join_below (fun d hd => (hbefore d hd).1) hname,
        nameBelow_below root (by simp)]

/-- The files of the `chrome` folder, and the single file beside it. -/
def chromeFiles (files : Files) (s : Shipment) : List (String × String) :=
  let single := join s.chromeFrom "chrome.manifest"
  let folder := join s.chromeFrom "chrome"
  (if files.isFile single then [("chrome.manifest", single)] else []) ++
    if files.contains folder then
      listed files folder (fun _ => keepsFile (ignored s)) ("chrome/" ++ ·)
    else []

def templateFiles (files : Files) (s : Shipment) : List (String × String) :=
  listed files s.template
    (fun path n => (!decide (path = s.template) || keepsFile ["install.rdf"] n) &&
      keepsFile (ignored s) n) id

def sectionFiles (files : Files) (s : Shipment) (pkg sec dir : String) : List (String × String) :=
  listed files dir (fun path n => keepsFile (ignored s) n && s.limit.all (·.contains (join path n)))
    (below "resources" [pkg, sec] ++ "/" ++ ·)

/-- The directories that a walk passes, by their names below a path of the same length as another
one. -/
def passed (files : Files) (root cut : String) : List String :=
  (files.walk keepsDir root).flatMap fun v =>
    v.dirs.map fun d => nameBelow cut (join v.path d)

/-- The `chrome` folder and the directories in it, whose names are cut as those of the template. -/
def chromeDirs (files : Files) (s : Shipment) : List String :=
  let folder := join s.chromeFrom "chrome"
  if files.contains folder then "chrome" :: passed files folder s.template else []

/-- The packages that are shipped: the library may be left out. -/
def shippedPackages (s : Shipment) (pkgs : Assoc Text (Assoc Text String)) :
    Assoc Text (Assoc Text String) :=
  pkgs.filter fun x => !(!s.withLibrary && x.1 == Text.ofString Package.libraryName)

def packageFiles (files : Files) (s : Shipment) (pkgs : Assoc Text (Assoc Text String)) :
    List (String × String) :=
  pkgs.flatMap fun x => x.2.flatMap fun y =>
    sectionFiles files s x.1.display y.1.display y.2

/-- The directories of packages and of their sections. -/
def packageDirs (pkgs : Assoc Text (Assoc Text String)) : List String :=
  pkgs.flatMap fun x => below "resources" [x.1.display] ::
    x.2.map fun y => below "resources" [x.1.display, y.1.display]

namespace Plan

/-- A plan with more directories and more files, read one after another. -/
def add (p : Plan) (names : List String) (pairs : List (String × String)) : Plan :=
  ⟨p.dirs ++ names, merge p.files pairs⟩

theorem add_nil (p : Plan) : p.add [] [] = p := by
  rw [add, List.append_nil]
  rfl

theorem add_add (p : Plan) (names names' : List String) (pairs pairs' : List (String × String)) :
    (p.add names pairs).add names' pairs' = p.add (names ++ names') (pairs ++ pairs') := by
  simp only [add, List.append_assoc, merge_append]

variable {α : Type} (l : List α) (p : Plan)

theorem addEach_eq {step : Plan → α → Plan} (names : α → List String)
    (pairs : α → List (String × String)) (h : ∀ p a, step p a = p.add (names a) (pairs a)) :
    p.addEach l step = p.add (l.flatMap names) (l.flatMap pairs) := by
  induction l generalizing p with
  | nil => exact p.add_nil.symm
  | cons a l ih =>
    have hstep : p.addEach (a :: l) step = (step p a).addEach l step := rfl
    rw [hstep, ih, h, add_add, List.flatMap_cons, List.flatMap_cons]

theorem addEach_addDir (name : α → String) :
    p.addEach l (fun p a => p.addDir (name a)) = p.add (l.map name) [] := by
  refine (addEach_eq l p (fun a => [name a]) (fun _ => []) fun _ _ => rfl).trans ?_
  rw [List.map_eq_flatMap, List.flatMap_eq_nil_iff.2 fun _ _ => rfl]

theorem addEach_files {step : Plan → α → Plan} (pairs : α → List (String × String))
    (h : ∀ p a, step p a = p.add [] (pairs a)) : p.addEach l step = p.add [] (l.flatMap pairs) := by
  rw [addEach_eq l p (fun _ => []) pairs h, List.flatMap_eq_nil_iff.2 fun _ _ => rfl]

theorem addEach_addFile (name path : α → String) :
    p.addEach l (fun p a => p.addFile (name a) (path a)) =
      p.add [] (l.map fun a => (name a, path a)) := by
  rw [List.map_eq_flatMap]
  refine addEach_files l p _ fun p a => ?_
  rw [add, List.append_nil]
  rfl

/-- Where every step succeeds and adds to the plan, the chain does. -/
theorem foldlM_eq {step : Plan → α → Except Fault Plan} (names : α → List String)
    (pairs : α → List (String × String)) (h : ∀ p a, step p a = .ok (p.add (names a) (pairs a))) :
    l.foldlM step p = .ok (p.add (l.flatMap names) (l.flatMap pairs)) := by
  induction l generalizing p with
  | nil => exact congrArg Except.ok p.add_nil.symm
  | cons a l ih =>
    rw [List.foldlM_cons, h, ok_bind, ih, add_add, List.flatMap_cons, List.flatMap_cons]

end Plan

variable (files : Files) (s : Shipment)

theorem planTemplate_eq (p : Plan) : planTemplate files s p =
    p.add (passed files s.template s.template) (templateFiles files s) := by
  refine Plan.addEach_eq _ p _ _ fun p v => ?_
  rw [Plan.addEach_addFile, Plan.addEach_addDir, Plan.add_add, List.append_nil, List.nil_append]
  rfl

theorem planChrome_eq :
    planChrome files s {} = Plan.add {} (chromeDirs files s) (chromeFiles files s) := by
  have hsingle : ∀ b : Bool, ∀ single,
      (if b then ({} : Plan).addFile "chrome.manifest" single else {}) =
        Plan.add {} [] (if b then [("chrome.manifest", single)] else []) := by
    intro b single
    cases b <;> rfl
  unfold planChrome chromeFiles chromeDirs
  dsimp only
  rw [hsingle]
  cases hfolder : files.contains (join s.chromeFrom "chrome") with
  | false => simp
  | true =>
    have hfirst : ∀ p : Plan, p.addDir "chrome" = p.add ["chrome"] [] := fun _ => rfl
    rw [hfirst, Plan.addEach_eq _ _ _ _ fun p v => ?_]
    · rw [Plan.add_add, Plan.add_add]
      rfl
    · rw [Plan.addEach_addFile, Plan.addEach_addDir, Plan.add_add, List.append_nil, List.nil_append]

theorem planSection_eq (pkg sec dir : String) (p : Plan) :
    planSection files s pkg sec dir p =
      p.add [below "resources" [pkg, sec]] (sectionFiles files s pkg sec dir) := by
  have hfirst : p.addDir (below "resources" [pkg, sec]) =
    p.add [below "resources" [pkg, sec]] [] := rfl
  refine Eq.trans (Plan.addEach_files _ _ _ fun p v => ?_)
    ((congrArg (Plan.add · [] _) hfirst).trans (Plan.add_add ..))
  -- The choice by paths is made on names, as the other one is.
  rw [Plan.addEach_addFile, List.filter_map, List.map_map, List.filter_filter]
  simp only [Function.comp_def, Bool.and_comm]
  rfl

/-- Packages as they stand in the options. -/
def packagesValue (pkgs : Assoc Text (Assoc Text String)) : Value :=
  .object (pkgs.map fun (name, sections) =>
    (name, Value.object (sections.map fun (s, d) => (s, Value.str d))))

theorem planPackages_eq (pkgs : Assoc Text (Assoc Text String)) (p : Plan) :
    planPackages files s (packagesValue pkgs) p =
      .ok (p.add (packageDirs (shippedPackages s pkgs))
        (packageFiles files s (shippedPackages s pkgs))) := by
  unfold planPackages packagesValue entriesOf
  rw [ok_bind, List.foldlM_map, packageDirs, packageFiles,
    ← Plan.foldlM_eq _ p _ _ fun p x => rfl, shippedPackages, List.foldlM_filter]
  congr 1
  funext p x
  cases hleft : !s.withLibrary && x.1 == Text.ofString Package.libraryName with
  | true => exact if_pos hleft
  | false =>
    refine (if_neg (by rw [hleft]; decide)).trans ?_
    rw [ok_bind, List.foldlM_map,
      Plan.foldlM_eq _ _ (fun y => [below "resources" [x.1.display, y.1.display]]) _ fun p y => ?_]
    · rw [← List.map_eq_flatMap]
      exact congrArg Except.ok (Plan.add_add p [below "resources" [x.1.display]] _ [] _)
    · exact congrArg Except.ok ((planSection_eq ..).trans (by rw [Text.display_ofString]))

variable (pkgs : Assoc Text (Assoc Text String))

def plannedFiles : List (String × String) :=
  chromeFiles files s ++ (templateFiles files s ++ packageFiles files s (shippedPackages s pkgs))

def plannedDirs : List String :=
  chromeDirs files s ++ (passed files s.template s.template ++ packageDirs (shippedPackages s pkgs))

/-- **The plan of an archive.** -/
theorem plan_eq :
    planPackages files s (packagesValue pkgs) (planTemplate files s (planChrome files s {})) =
      .ok ⟨plannedDirs files s pkgs, ofList (plannedFiles files s pkgs)⟩ := by
  rw [planPackages_eq, planTemplate_eq, planChrome_eq, Plan.add_add, Plan.add_add]
  rfl

variable {files s pkgs}

/-! ## Planned names -/

section Names

variable (ht : files.tree.Sound) (hnamed : files.tree.Named)

include ht hnamed

theorem exists_of_mem_chromeFiles {x : String × String} (hx : x ∈ chromeFiles files s) :
    ∃ first rest, x.1 = below first rest ∧ (∀ n ∈ first :: rest, IsName n) ∧
      files.isFile x.2 ∧ first ≠ "resources" := by
  unfold chromeFiles at hx
  rcases List.mem_append.1 hx with hx | hx
  · split at hx
    · rename_i hfile
      rw [List.mem_singleton.1 hx]
      exact ⟨"chrome.manifest", [], rfl, by decide, hfile, by decide⟩
    · cases hx
  · split at hx
    · have hchrome : IsName "chrome" := by decide
      obtain ⟨before, n, hbefore, hn, -, hfile, rfl⟩ :=
        (mem_listed_iff ht hnamed (hchrome.bare_join _)).1 hx
      refine ⟨"chrome", before ++ [n], ?_, fun m hm => ?_, hfile, by decide⟩
      · rw [below_eq "chrome" (by simp)]
        rfl
      · grind
    · cases hx

theorem exists_of_mem_templateFiles (hbare : Bare s.template) {x : String × String}
    (hx : x ∈ templateFiles files s) :
    ∃ first rest, x.1 = below first rest ∧ (∀ n ∈ first :: rest, IsName n) ∧
      files.isFile x.2 ∧ x.2 = s.template ++ "/" ++ x.1 := by
  obtain ⟨before, n, hbefore, hn, -, hfile, rfl⟩ := (mem_listed_iff ht hnamed hbare).1 hx
  have hnames : ∀ m ∈ before ++ [n], IsName m := names_of_kept hbefore hn
  obtain ⟨first, rest, hcons⟩ := List.exists_cons_of_ne_nil (l := before ++ [n]) (by simp)
  rw [hcons] at hnames hfile ⊢
  exact ⟨first, rest, rfl, hnames, hfile, below_eq _ (by simp)⟩

/-- **The files of a section:** those at kept ways that are not excluded by their paths. -/
theorem mem_sectionFiles_iff {pkg sec dir : String} (hbare : Bare dir) {x : String × String} :
    x ∈ sectionFiles files s pkg sec dir ↔
      ∃ way, Kept s way ∧ files.isFile (below dir way) ∧ s.limit.all (·.contains (below dir way)) ∧
        x = (below "resources" (pkg :: sec :: way), below dir way) := by
  have hname : ∀ before n, below "resources" [pkg, sec] ++ "/" ++
      Text.joinStrings "/" (before ++ [n]) = below "resources" (pkg :: sec :: (before ++ [n])) := by
    intro before n
    rw [← below_eq _ (by simp), ← below_append]
    rfl
  have hjoin : ∀ before n, (∀ d ∈ before, IsName d ∧ keepsDir d) → IsName n →
      join (below dir before) n = below dir (before ++ [n]) :=
    fun before n hbefore hn => hbare.join_below (fun d hd => (hbefore d hd).1) hn
  unfold sectionFiles
  rw [mem_listed_iff ht hnamed hbare]
  constructor
  · rintro ⟨before, n, hbefore, hn, hkeeps, hfile, rfl⟩
    obtain ⟨hkeeps, hlimit⟩ := Bool.and_eq_true_iff.1 hkeeps
    rw [hjoin before n hbefore hn] at hlimit
    exact ⟨before ++ [n], kept_iff.2 ⟨before, n, rfl, hbefore, hn, hkeeps⟩, hfile, hlimit,
      by rw [hname]⟩
  · rintro ⟨way, hway, hfile, hlimit, rfl⟩
    obtain ⟨before, n, rfl, hbefore, hn, hkeeps⟩ := kept_iff.1 hway
    refine ⟨before, n, hbefore, hn, Bool.and_eq_true_iff.2 ⟨hkeeps, ?_⟩, hfile, by rw [hname]⟩
    rwa [hjoin before n hbefore hn]

theorem mem_passed_iff {root : String} (hroot : Bare root) {cut name : String} :
    name ∈ passed files root cut ↔
      ∃ way, files.Passes keepsDir root way ∧ name = nameBelow cut (below root way) := by
  unfold passed
  simp only [List.mem_flatMap, List.mem_map]
  constructor
  · rintro ⟨v, hv, d, hd, rfl⟩
    obtain ⟨way, hway, hpath⟩ := (exists_mem_dirs_iff ht hnamed hroot).1 ⟨v, hv, d, hd, rfl⟩
    exact ⟨way, hway, by rw [hpath]⟩
  · rintro ⟨way, hway, rfl⟩
    obtain ⟨v, hv, d, hd, hpath⟩ := (exists_mem_dirs_iff ht hnamed hroot).2 ⟨way, hway, rfl⟩
    exact ⟨v, hv, d, hd, by rw [hpath]⟩

end Names

/-- What is expected of the tree, the directories that are walked, and the names of packages and
sections. -/
structure Neat (files : Files) (s : Shipment) (pkgs : Assoc Text (Assoc Text String)) : Prop where
  sound : files.tree.Sound
  named : files.tree.Named
  template : Bare s.template
  sections : ∀ x ∈ pkgs, IsName x.1.display ∧ ∀ y ∈ x.2, IsName y.1.display ∧ Bare y.2

/-- **Planned files have plain names**, and there are such files. -/
theorem Neat.exists_of_mem (h : Neat files s pkgs) {x : String × String}
    (hx : x ∈ plannedFiles files s pkgs) :
    ∃ first rest, x.1 = below first rest ∧ (∀ n ∈ first :: rest, IsName n) ∧ files.isFile x.2 := by
  simp only [plannedFiles, List.mem_append] at hx
  rcases hx with hx | hx | hx
  · obtain ⟨first, rest, hname, hnames, hfile, -⟩ := exists_of_mem_chromeFiles h.sound h.named hx
    exact ⟨first, rest, hname, hnames, hfile⟩
  · obtain ⟨first, rest, hname, hnames, hfile, -⟩ :=
      exists_of_mem_templateFiles h.sound h.named h.template hx
    exact ⟨first, rest, hname, hnames, hfile⟩
  · obtain ⟨p, hp, hx⟩ := List.mem_flatMap.1 hx
    obtain ⟨y, hy, hx⟩ := List.mem_flatMap.1 hx
    obtain ⟨hpkg, hsections⟩ := h.sections p (List.mem_of_mem_filter hp)
    obtain ⟨hsection, hbare⟩ := hsections y hy
    obtain ⟨way, hway, hfile, -, rfl⟩ := (mem_sectionFiles_iff h.sound h.named hbare).1 hx
    refine ⟨"resources", _, rfl, fun n hn => ?_, hfile⟩
    simp only [List.mem_cons] at hn
    rcases hn with rfl | rfl | rfl | hn
    · decide
    · exact hpkg
    · exact hsection
    · exact hway.1 n hn

end AddonBuilder.Extension
