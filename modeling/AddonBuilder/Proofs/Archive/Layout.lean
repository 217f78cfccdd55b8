import AddonBuilder.Proofs.Archive.Order

/-!
# The layout of an archive

The names, the modes and the order of all entries follow from the plan (`Packing.labels_archive`,
`Packing.directories_first`).
-/

namespace AddonBuilder.Extension

open Json List
open AddonBuilder.Path (IsName Bare below)
open AddonBuilder.Files (keepsDir)

/-- An archive that was written, of packages and languages that the options name. -/
structure Packing where
  files : Files
  shipment : Shipment
  pkgs : Assoc Text (Assoc Text String)
  neat : Neat files shipment pkgs
  options : Members
  packed : Assoc.get? options "packages" = some (packagesValue pkgs)
  locale : Value
  localized : Assoc.get? options "locale" = some locale
  languages : Members
  listed : entriesOf locale = .ok languages
  plan : Plan
  planned : Plan.withParents <$> planPackages files shipment (packagesValue pkgs)
    (planTemplate files shipment (planChrome files shipment {})) = .ok plan
  archive : Archive
  left : Members
  written : entries files shipment options = .ok (archive, left)

variable {name d : String}

namespace Packing

variable (run : Packing)

theorem plan_eq : run.plan =
    Plan.withParents ⟨plannedDirs run.files run.shipment run.pkgs,
      Assoc.ofList (plannedFiles run.files run.shipment run.pkgs)⟩ := by
  have hplan := run.planned
  rw [Extension.plan_eq] at hplan
  exact (Except.ok.inj hplan).symm

theorem mem_dirs_plan : d ∈ run.plan.dirs ↔
    d ∈ plannedDirs run.files run.shipment run.pkgs ∨
      ∃ n, Assoc.contains run.plan.files n ∧ ∃ rest, n = d ++ "/" ++ rest := by
  simp only [plan_eq, Plan.withParents, mem_append, mem_flatMap, mem_parentsOf_iff,
    Assoc.contains_iff, Assoc.keys, mem_map]
  grind

theorem bare_of_contains (h : Assoc.contains run.plan.files name) : Bare name := by
  rw [plan_eq] at h
  obtain ⟨x, hx, rfl⟩ := mem_map.1 (Assoc.contains_ofList.1 h)
  obtain ⟨first, rest, hname, hnames, -⟩ := run.neat.exists_of_mem hx
  rw [hname]
  exact Path.bare_below hnames

/-- **The parts of an archive and their labels.** -/
theorem exists_parts : ∃ front body bytes, planEntries run.files run.plan = .ok body ∧
    front.map label = frontLabels run.files run.options run.languages ∧
    body.map label = run.plan.names.flatMap (planLabels run.plan) ∧
    run.archive = front ++ body ++ [⟨"harness-options.json", bytes, none⟩] := by
  obtain ⟨pkgs, plan, locale, members, front, body, bytes, hpkgs, hplan, hlocale, hmembers,
    hbody, hfront, harchive⟩ := entries_eq run.written
  cases hpkgs.symm.trans run.packed
  cases hlocale.symm.trans run.localized
  cases hmembers.symm.trans run.listed
  cases (Extension.plan_eq ..).symm.trans hplan
  rw [plan_eq]
  refine ⟨front, body, bytes, hbody, hfront, labels_planEntries (fun name path hget => ?_) hbody,
    harchive⟩
  have hmem := Assoc.mem_of_mem_ofList (Assoc.mem_of_get? hget)
  obtain ⟨first, rest, hname, hnames, hfile⟩ := run.neat.exists_of_mem hmem
  obtain ⟨node, hnode, hne⟩ := Files.isFile_iff.1 hfile
  obtain rfl : name = below first rest := hname
  refine ⟨storedName_below hnames, ?_⟩
  rw [← Bool.not_eq_true, Files.isDir_iff, hnode]
  exact fun h => hne (Option.some.inj h)

theorem labels_archive : run.archive.map label =
    frontLabels run.files run.options run.languages ++
      (run.plan.names.flatMap (planLabels run.plan) ++ [("harness-options.json", none)]) := by
  obtain ⟨front, body, bytes, -, hfront, hbody, harchive⟩ := run.exists_parts
  rw [harchive, map_append, map_append, hfront, hbody, append_assoc]
  rfl

/-- **Directories come before their files** if and only if no language has a slash in its name; and
the plan is written in the order of names. -/
theorem directories_first :
    (LeadsUp (run.archive.map label) ↔ ∀ x ∈ run.languages, '/' ∉ x.1.display.toList) ∧
    ∃ front body last, planEntries run.files run.plan = .ok body ∧
      run.archive = front ++ body ++ [last] ∧
      body.Pairwise fun e e' => stem e.name ≤ stem e'.name := by
  have hbare : ∀ n, Assoc.contains run.plan.files n = true → Bare n := fun _ => run.bare_of_contains
  have hplan : LeadsUp (run.plan.names.flatMap (planLabels run.plan)) :=
    leadsUp_plan hbare fun n hn d hd =>
      run.mem_dirs_plan.2 (.inr ⟨n, hn, mem_parentsOf_iff.1 hd⟩)
  refine ⟨⟨fun h => flat_of_leadsUp (run.labels_archive ▸ h), fun hflat => ?_⟩, ?_⟩
  · rw [labels_archive]
    exact (leadsUp_front hflat).append (hplan.append (leadsUp_of_flat (by simp)))
  · obtain ⟨front, body, bytes, hbody, -, hlabels, harchive⟩ := run.exists_parts
    refine ⟨front, body, _, hbody, harchive, ?_⟩
    have hsorted := pairwise_planLabels hbare
    rwa [← hlabels, pairwise_map] at hsorted

/-! ## Names that occur twice -/

/-- The fixed names that are written beside the plan. -/
def own : List String :=
  "install.rdf" :: ((icons run.files run.options).map Prod.fst ++
    ["locale/", "locales.json", "harness-options.json"])

/-- The `chrome` folder of the package. -/
def folder : String := Path.join run.shipment.chromeFrom "chrome"

/-- The name of a directory of the `chrome` folder, cut as those of the template are. -/
def Cut (d : String) : Prop :=
  run.files.contains run.folder = true ∧ ∃ way,
    run.files.Passes keepsDir run.folder way ∧
      d = nameBelow run.shipment.template (below run.folder way)

theorem mem_plannedDirs_iff : d ∈ plannedDirs run.files run.shipment run.pkgs ↔
    (run.files.contains run.folder ∧ d = "chrome" ∨ run.Cut d) ∨
    (∃ way, run.files.Passes keepsDir run.shipment.template way ∧ d = Text.joinStrings "/" way) ∨
    d ∈ packageDirs (shippedPackages run.shipment run.pkgs) := by
  obtain ⟨hsound, hnamed, htemplate, -⟩ := run.neat
  have hfolder : Bare run.folder := IsName.bare_join (by decide) _
  unfold plannedDirs chromeDirs Cut
  rw [mem_append, mem_append, mem_passed_iff hsound hnamed htemplate]
  refine or_congr ?_ (or_congr_left (exists_congr fun way => and_congr_right fun hway => ?_))
  · dsimp only
    rw [← folder]
    split
    · rename_i hcontains
      rw [mem_cons, mem_passed_iff hsound hnamed hfolder]
      simp only [hcontains, true_and]
    · grind
  · rw [nameBelow_below _ hway.1]

variable {run}

theorem mem_names_plan : name ∈ (run.plan.names.flatMap (planLabels run.plan)).map Prod.fst ↔
    (∃ d ∈ run.plan.dirs, name = d ++ "/") ∨ Assoc.contains run.plan.files name := by
  simp only [mem_map, mem_planLabels]
  constructor
  · rintro ⟨_, ⟨d, hd, rfl⟩ | ⟨n, hn, rfl⟩, rfl⟩
    · exact .inl ⟨d, hd, rfl⟩
    · exact .inr hn
  · rintro (⟨d, hd, rfl⟩ | hn)
    · exact ⟨_, .inl ⟨d, hd, rfl⟩, rfl⟩
    · exact ⟨_, .inr ⟨name, hn, rfl⟩, rfl⟩

variable (run)

theorem names_archive : run.archive.names.Perm
    ((tableLabels run.languages).map Prod.fst ++ (run.own ++
      (run.plan.names.flatMap (planLabels run.plan)).map Prod.fst)) := by
  rw [names_eq, labels_archive, perm_iff_count]
  intro a
  simp [frontLabels, own, count_append, count_cons, copyLabel]
  omega

theorem slash_of_mem_own : ∀ n ∈ run.own, '/' ∈ n.toList → n.toList.getLast? = some '/' := by
  have hicons : ∀ name ∈ ["icon.png", "icon64.png"], ∀ dir,
      '/' ∈ (copyLabel dir name).1.toList →
        (copyLabel dir name).1.toList.getLast? = some '/' := by decide
  simp only [own, mem_cons, mem_append, mem_map, not_mem_nil, or_false]
  rintro _ (rfl | ⟨x, hx, rfl⟩ | rfl | rfl | rfl)
  · decide
  · obtain ⟨name, hname, dir, rfl⟩ := exists_of_mem_icons hx
    exact hicons name hname dir
  · decide
  · decide
  · decide

theorem nodup_own : run.own.Nodup := by
  have hfixed : ∀ icon icon64 : Option Bool, ("install.rdf" ::
      (((icon.map (copyLabel · "icon.png")).toList ++
        (icon64.map (copyLabel · "icon64.png")).toList).map Prod.fst ++
          ["locale/", "locales.json", "harness-options.json"])).Nodup := by
    rintro (_ | _ | _) (_ | _ | _) <;> decide
  have hown := hfixed
    ((Assoc.get? run.options "icon").map fun icon => run.files.isDir icon.plain.display)
    ((Assoc.get? run.options "icon64").map fun icon => run.files.isDir icon.plain.display)
  rwa [Option.map_map, Option.map_map] at hown

theorem nodup_tables : ((tableLabels run.languages).map Prod.fst).Nodup ↔
    (run.languages.map fun x => x.1.display).Nodup := by
  have hinjective : Function.Injective fun l : String => "locale/" ++ l ++ ".json" := by
    intro a b h
    simpa using h
  refine Iff.trans ?_ (nodup_map_iff hinjective)
  rw [tableLabels, map_map, map_map, ((mergeSort_perm ..).map _).nodup_iff]
  rfl

/-- **A name occurs twice in an archive** if and only if two languages are shown alike, or a fixed
name is planned too, as that of a directory or of a file. -/
theorem names_nodup_iff : run.archive.names.Nodup ↔ (run.languages.map fun x => x.1.display).Nodup ∧
    ∀ n ∈ run.own, Assoc.contains run.plan.files n = false ∧ ∀ d ∈ run.plan.dirs, n ≠ d ++ "/" := by
  rw [run.names_archive.nodup_iff, nodup_append, nodup_append, nodup_tables]
  constructor
  · rintro ⟨hlanguages, ⟨-, -, hown⟩, -⟩
    refine ⟨hlanguages, fun n hn => ⟨Bool.eq_false_iff.2 fun hfile => ?_, fun d hd heq => ?_⟩⟩
    · exact hown n hn n (mem_names_plan.2 (.inr hfile)) rfl
    · exact hown n hn n (mem_names_plan.2 (.inl ⟨d, hd, heq⟩)) rfl
  · rintro ⟨hlanguages, hfree⟩
    have hown : ∀ n ∈ run.own, n ∉ (run.plan.names.flatMap (planLabels run.plan)).map Prod.fst := by
      intro n hn hmem
      rcases mem_names_plan.1 hmem with ⟨d, hd, heq⟩ | hfile
      · exact (hfree n hn).2 d hd heq
      · exact Bool.eq_false_iff.1 (hfree n hn).1 hfile
    refine ⟨hlanguages, ⟨run.nodup_own, nodup_planLabels fun n => run.bare_of_contains, ?_⟩, ?_⟩
    · rintro n hn _ hmem rfl
      exact hown n hn hmem
    · intro t ht n hn heq
      obtain ⟨x, hx, rfl⟩ := mem_map.1 ht
      obtain ⟨language, -, rfl⟩ := mem_map.1 hx
      have hlast := getLast?_append_json ("locale/" ++ language.1.display)
      subst heq
      rcases mem_append.1 hn with hn | hn
      · exact hlast (run.slash_of_mem_own _ hn (by simp))
      · -- The directory of a planned table is planned too.
        rcases mem_names_plan.1 hn with ⟨d, -, hd⟩ | hfile
        · exact hlast ((congrArg (·.toList.getLast?) hd).trans (by simp))
        · have hparent : "locale" ∈ run.plan.dirs := run.mem_dirs_plan.2
            (.inr ⟨_, hfile, language.1.display ++ ".json", by simp [String.append_assoc]⟩)
          exact hown "locale/" (by simp [own]) (mem_names_plan.2 (.inl ⟨_, hparent, rfl⟩))

/-! ## The directories of an archive -/

theorem mem_names_iff : d ++ "/" ∈ run.archive.names ↔ d = "locale" ∨
    d ++ "/" ∈ (icons run.files run.options).map Prod.fst ∨ d ∈ run.plan.dirs := by
  have hlast : ∀ {n : String}, n.toList.getLast? ≠ some '/' → d ++ "/" ≠ n := by
    rintro n hn rfl
    exact hn (by simp)
  have hlocale : d ++ "/" = "locale/" ↔ d = "locale" := by
    rw [show "locale/" = "locale" ++ "/" from rfl, String.append_left_inj]
  have htables : d ++ "/" ∉ (tableLabels run.languages).map Prod.fst := by
    intro h
    obtain ⟨x, hx, heq⟩ := mem_map.1 h
    obtain ⟨language, -, rfl⟩ := mem_map.1 hx
    exact hlast (getLast?_append_json _) heq.symm
  have hfile : ¬ Assoc.contains run.plan.files (d ++ "/") := fun h =>
    hlast (run.bare_of_contains h).getLast?_ne rfl
  rw [run.names_archive.mem_iff, mem_append, mem_append, mem_names_plan]
  simp only [own, mem_cons, mem_append, not_mem_nil, htables, hfile, hlocale,
    String.append_left_inj, exists_eq_right', or_false, false_or,
    hlast (show "install.rdf".toList.getLast? ≠ _ by decide),
    hlast (show "locales.json".toList.getLast? ≠ _ by decide),
    hlast (show "harness-options.json".toList.getLast? ≠ _ by decide)]
  tauto

theorem exists_copied_iff : (∃ e ∈ run.archive, e.mode = some copiedMode ∧ e.name = name) ↔
    copyLabel false name ∈ icons run.files run.options ∨ Assoc.contains run.plan.files name := by
  have hlabel : (∃ e ∈ run.archive, e.mode = some copiedMode ∧ e.name = name) ↔
      copyLabel false name ∈ run.archive.map label := by
    simp only [mem_map, label, copyLabel, Bool.false_eq_true, if_false, Prod.mk.injEq, and_comm]
  have hcopy : ∀ {x : String × Option Nat}, copyLabel false name = x → x.2 = some copiedMode := by
    rintro _ rfl
    rfl
  rw [hlabel, labels_archive, mem_append, mem_append, mem_planLabels]
  constructor
  · rintro (hfront | (⟨d, -, heq⟩ | ⟨n, hn, heq⟩) | hlast)
    · rcases frontLabels_cases hfront with heq | hicon | ⟨-, -, hmode⟩
      · cases hcopy heq
      · exact .inl hicon
      · exact absurd (by simp [copyLabel]) hmode
    · cases hcopy heq
    · obtain rfl : name = n := congrArg Prod.fst heq
      exact .inr hn
    · cases hcopy (mem_singleton.1 hlast)
  · rintro (hicon | hn)
    · exact .inl (mem_cons_of_mem _ (mem_append_left _ hicon))
    · exact .inr (.inl (.inr ⟨name, hn, rfl⟩))

theorem cut_eq_iff (way : List String) (hway : way ≠ []) :
    nameBelow run.shipment.template (below run.folder way) = below "chrome" way ↔
      run.folder.length = run.shipment.template.length + "/chrome".length := by
  obtain ⟨before, hbefore⟩ : ∃ before, run.folder = before ++ "chrome" := by
    unfold folder Path.join
    rw [if_neg (by decide)]
    split
    · exact ⟨_, rfl⟩
    · exact ⟨_, rfl⟩
  rw [nameBelow, Path.below_eq _ hway, Path.below_eq _ hway, ← String.toList_inj,
    String.toList_ofList]
  constructor
  · intro h
    have hlen := congrArg length h
    simp only [length_drop, String.length_toList, String.length_append] at hlen
    have h₁ : "chrome".length = 6 := rfl
    have h₃ : "/chrome".length = 7 := rfl
    omega
  · intro h
    have hcut : before.toList.length = run.shipment.template.length + 1 := by
      rw [hbefore, String.length_append] at h
      rw [String.length_toList]
      exact Nat.add_right_cancel h
    rw [hbefore, String.append_assoc, String.append_assoc, String.toList_append, ← hcut, drop_left,
      String.append_assoc]

/-- **The directories of an archive:** `locale`, icons that are directories, the `chrome` folder and
its directories, those of the template, of packages and of sections, and those on the way to a file
that is copied.  The directories of the `chrome` folder are in place if and only if the path of the
template is as long as that of the package. -/
theorem directories_eq :
    (∀ d, d ++ "/" ∈ run.archive.names ↔ d = "locale" ∨
      d ++ "/" ∈ (icons run.files run.options).map Prod.fst ∨
      ((run.files.contains run.folder = true ∧ d = "chrome" ∨ run.Cut d) ∨
        (∃ way, run.files.Passes keepsDir run.shipment.template way ∧
          d = Text.joinStrings "/" way) ∨
        d ∈ packageDirs (shippedPackages run.shipment run.pkgs)) ∨
      ∃ e ∈ run.archive, e.mode = some copiedMode ∧ ∃ rest, e.name = d ++ "/" ++ rest) ∧
    ∀ way, way ≠ [] → (nameBelow run.shipment.template (below run.folder way) = below "chrome" way ↔
      run.folder.length = run.shipment.template.length + "/chrome".length) := by
  refine ⟨fun d => ?_, run.cut_eq_iff⟩
  rw [mem_names_iff, mem_dirs_plan, mem_plannedDirs_iff]
  refine or_congr_right (or_congr_right (or_congr_right ?_))
  constructor
  · rintro ⟨n, hn, rest, hrest⟩
    obtain ⟨e, he, hmode, rfl⟩ := run.exists_copied_iff.2 (.inr hn)
    exact ⟨e, he, hmode, rest, hrest⟩
  · rintro ⟨e, he, hmode, rest, hrest⟩
    rcases run.exists_copied_iff.1 ⟨e, he, hmode, rfl⟩ with hicon | hn
    · obtain ⟨name, hname, dir, heq⟩ := exists_of_mem_icons hicon
      cases dir with
      | false =>
        have heq : e.name = name := congrArg Prod.fst heq
        exact absurd (by simp [← heq, hrest]) (flat_icons name hname)
      | true =>
        have hmode : some copiedMode = some Archive.dirMode := congrArg Prod.snd heq
        exact absurd hmode (by decide)
    · exact ⟨e.name, hn, rest, hrest⟩

end Packing

/-! ## A small folder -/

/-- A package with a directory in its `chrome` folder, and no template. -/
def cutFiles : Files where
  tree := [(["p"], .dir), (["p", "chrome"], .dir), (["p", "chrome", "locale"], .dir)]

def cutShipment : Shipment where
  template := "/template"
  description := []
  target := "/addon.xpi"
  chromeFrom := "/p"

def cutOptions : Members :=
  [(Text.ofString "packages", packagesValue []),
    (Text.ofString "locale", .object [(Text.ofString "a/b", .object [])])]

def cutLabels : List (String × Option Nat) :=
  [("install.rdf", none), ("locale/", some Archive.dirMode),
    ("locale/a/b.json", some Archive.fileMode), ("locales.json", some Archive.fileMode),
    ("chrome/", some Archive.dirMode), ("locale/", some Archive.dirMode),
    ("harness-options.json", none)]

theorem entries_cut : ∃ archive left, entries cutFiles cutShipment cutOptions = .ok (archive, left) ∧
    archive.map label = cutLabels := by
  have hlabels : ((entries cutFiles cutShipment cutOptions).toOption.map fun x => x.1.map label) =
      some cutLabels := by
    decide +kernel
  obtain ⟨⟨archive, left⟩, harchive, hlabels⟩ := Option.map_eq_some_iff.1 hlabels
  exact ⟨archive, left, toOption_eq_some_iff.1 harchive, hlabels⟩

/-- **The small folder is packed.**  Its archive has all that a packing asks for. -/
theorem exists_packing_cut : ∃ run : Packing, run.files = cutFiles ∧ run.shipment = cutShipment ∧
    run.options = cutOptions ∧ run.languages = [(Text.ofString "a/b", .object [])] ∧
    run.plan.dirs = ["chrome", "locale"] ∧ run.archive.map label = cutLabels := by
  obtain ⟨archive, left, hwritten, hlabels⟩ := entries_cut
  have hneat : Neat cutFiles cutShipment [] := ⟨by decide, by decide, by decide, forall_mem_nil _⟩
  have hplan := congrArg (Plan.withParents <$> ·) (plan_eq cutFiles cutShipment [])
  have hdirs : (Plan.withParents ⟨plannedDirs cutFiles cutShipment [],
      Assoc.ofList (plannedFiles cutFiles cutShipment [])⟩).dirs = ["chrome", "locale"] := by
    decide +kernel
  exact ⟨⟨cutFiles, cutShipment, [], hneat, cutOptions, rfl, _, rfl, _, rfl, _, hplan, archive, left,
    hwritten⟩, rfl, rfl, rfl, rfl, hdirs, hlabels⟩

/-- The name of the language of the small folder has a slash. -/
theorem directories_first_cut : ∃ run : Packing, run.files = cutFiles ∧
    ¬ LeadsUp (run.archive.map label) := by
  obtain ⟨run, hfiles, -, -, hlanguages, -⟩ := exists_packing_cut
  refine ⟨run, hfiles, fun h => ?_⟩
  have hflat := run.directories_first.1.1 h
  rw [hlanguages] at hflat
  exact hflat _ mem_cons_self (by decide)

/-- A directory is planned under the fixed name of that of the tables. -/
theorem names_nodup_iff_cut : ∃ run : Packing, run.files = cutFiles ∧
    ¬ run.archive.names.Nodup := by
  obtain ⟨run, hfiles, -, -, -, hdirs, -⟩ := exists_packing_cut
  refine ⟨run, hfiles, fun h => ?_⟩
  have hfree := (run.names_nodup_iff.1 h).2 "locale/" (by simp [Packing.own])
  exact hfree.2 "locale" (by simp [hdirs]) rfl

/-- The `chrome` folder has an entry, and its directory has one under a name that is cut too short. -/
theorem directories_eq_cut : ∃ run : Packing, run.files = cutFiles ∧ run.shipment = cutShipment ∧
    "chrome/" ∈ run.archive.names ∧
    nameBelow "/template" (below "/p/chrome" ["locale"]) ≠ below "chrome" ["locale"] := by
  obtain ⟨run, hfiles, hshipment, -⟩ := exists_packing_cut
  have hfolder : run.folder = "/p/chrome" := by
    rw [Packing.folder, hshipment]
    decide
  have hcontains : run.files.contains run.folder = true := by
    rw [hfiles, hfolder]
    decide
  obtain ⟨hentry, hplace⟩ := run.directories_eq
  refine ⟨run, hfiles, hshipment, ?_, fun h => ?_⟩
  · exact (hentry "chrome").2 (.inr (.inr (.inl (.inl (.inl ⟨hcontains, rfl⟩)))))
  · rw [hfolder, hshipment] at hplace
    exact absurd ((hplace ["locale"] (by simp)).1 h) (by decide)

/-- The table of a language with a slash in its name has no directory. -/
theorem table_without_directory : ∃ archive left,
    entries cutFiles cutShipment cutOptions = .ok (archive, left) ∧
      ¬ LeadsUp (archive.map label) := by
  obtain ⟨archive, left, harchive, hlabels⟩ := entries_cut
  refine ⟨archive, left, harchive, fun h => ?_⟩
  rw [hlabels] at h
  have hmem := h [_, _] _ _ rfl (by decide) "locale/a" "b.json" rfl
  revert hmem
  decide

/-- The directory `locale` of a `chrome` folder takes the name of that of the tables. -/
theorem locale_written_twice : ∃ archive left,
    entries cutFiles cutShipment cutOptions = .ok (archive, left) ∧ ¬ archive.names.Nodup := by
  obtain ⟨archive, left, harchive, hlabels⟩ := entries_cut
  refine ⟨archive, left, harchive, ?_⟩
  rw [names_eq, hlabels]
  decide

/-- The directory `locale` of a `chrome` folder is not in its place. -/
theorem chrome_not_in_place : cutFiles.isDir "/p/chrome/locale" = true ∧ ∃ archive left,
    entries cutFiles cutShipment cutOptions = .ok (archive, left) ∧
      "chrome/locale/" ∉ archive.names := by
  obtain ⟨archive, left, harchive, hlabels⟩ := entries_cut
  refine ⟨by decide, archive, left, harchive, ?_⟩
  rw [names_eq, hlabels]
  decide

end AddonBuilder.Extension
