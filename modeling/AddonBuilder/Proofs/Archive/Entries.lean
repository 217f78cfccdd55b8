import AddonBuilder.Proofs.Archive.Plan

/-!
# The entries of an archive

A planned file becomes an entry with the planned name and the content of the file
(`storedName_below`).
-/

namespace AddonBuilder.Extension

open Json Path List
open AddonBuilder.Path (IsName Bare below Plain)

/-! ## Stored names -/

variable {p first name path : String} {rest : List String} {e : Archive.Entry} {options : Members}

theorem leadingSlashes_eq (hp : isAbsolute p = false) : leadingSlashes p = "" := by
  have hslashes : ∀ more, Text.beginsWith p ("/" ++ more) = false := by
    intro more
    rw [← Bool.not_eq_true, Text.beginsWith_iff]
    rintro ⟨t, rfl⟩
    rw [String.append_assoc, isAbsolute_append (by decide)] at hp
    cases hp
  unfold leadingSlashes
  rw [show "///" = "/" ++ "//" from rfl, show "//" = "/" ++ "/" from rfl, hslashes, hslashes, hp]
  rfl

theorem normal_eq (hp : isAbsolute p = false) (hempty : p.isEmpty = false)
    (hplain : ∀ n ∈ names p, Plain n) : normal p = p := by
  have hnames : normalNames false (names p) = names p := by
    rw [normalNames, foldl_pushName_plain hplain, append_nil, reverse_reverse]
  have hroot : (!("" : String).isEmpty) = false := rfl
  unfold normal
  dsimp only
  rw [leadingSlashes_eq hp, hroot, hnames, joinStrings_names, String.empty_append, hempty]
  rfl

theorem storedName_eq (hp : isAbsolute p = false) (hempty : p.isEmpty = false)
    (hplain : ∀ n ∈ names p, Plain n) : storedName p = p := by
  rw [storedName, normal_eq hp hempty hplain]
  have hhead : ¬ p.toList.head? = some '/' := by
    rw [← isAbsolute_iff, hp]
    decide
  cases hletters : p.toList with
  | nil => rw [dropWhile_nil, ← hletters, String.ofList_toList]
  | cons c letters =>
    rw [hletters] at hhead
    rw [dropWhile_cons_of_neg (by simpa using hhead), ← hletters, String.ofList_toList]

theorem names_below_name
    (hnames : ∀ n ∈ first :: rest, IsName n) : names (below first rest) = first :: rest := by
  rw [names_below first fun n hn => hnames n (mem_cons_of_mem _ hn),
    names_of_not_mem (hnames first mem_cons_self).2]
  rfl

/-- A path made of names is stored as it is. -/
theorem storedName_below
    (hnames : ∀ n ∈ first :: rest, IsName n) : storedName (below first rest) = below first rest := by
  have hfirst : IsName first := hnames first mem_cons_self
  refine storedName_eq ?_ (bare_below hnames).1 ?_
  · rw [isAbsolute_below hfirst.isEmpty, hfirst.isAbsolute]
  · rw [names_below_name hnames]
    exact fun n hn => (hnames n hn).1

theorem beginsWith_resources_iff (hnames : ∀ n ∈ first :: rest, IsName n) :
    Text.beginsWith (below first rest) "resources/" ↔ first = "resources" ∧ rest ≠ [] := by
  rw [Text.beginsWith_iff]
  constructor
  · rintro ⟨t, ht⟩
    have hsplit : names (below first rest) = "resources" :: names t := by
      rw [ht, show "resources/" = "resources" ++ "/" from rfl, names_append_slash]
      rfl
    rw [names_below_name hnames] at hsplit
    obtain ⟨rfl, rfl⟩ := cons.inj hsplit
    exact ⟨rfl, names_ne_nil t⟩
  · rintro ⟨rfl, hne⟩
    exact ⟨_, below_eq "resources" hne⟩

theorem beginsWith_resources_of_head (h : name.toList.head? ≠ some 'r') :
    Text.beginsWith name "resources/" = false := by
  rw [← Bool.not_eq_true, Text.beginsWith_iff]
  rintro ⟨t, rfl⟩
  rw [String.toList_append] at h
  exact h rfl

/-! ## Entries -/

variable {files : Files} {s : Shipment}

theorem copied_of_read? {content : Bytes} (h : files.read? path = some content) :
    copied files path name = .ok ⟨storedName name, content, some copiedMode⟩ := by
  unfold Files.read? at h
  split at h
  · rename_i hnode
    cases h
    rw [copied, hnode]
  · cases h

/-- The name and the mode of an entry. -/
def label (e : Archive.Entry) : String × Option Nat := (e.name, e.mode)

theorem names_eq (a : Archive) : a.names = (a.map label).map Prod.fst := by
  rw [List.map_map]
  rfl

def copyLabel (dir : Bool) (name : String) : String × Option Nat :=
  if dir then (name ++ "/", some Archive.dirMode) else (name, some copiedMode)

theorem label_of_copied (h : copied files path name = .ok e) :
    label e = copyLabel (files.isDir path) (storedName name) := by
  unfold copied at h
  unfold Files.isDir
  split at h
  · cases h
  all_goals
    rename_i hnode
    rw [← Except.ok.inj h, hnode]
    rfl

/-- The entries for a name are a directory, perhaps, and a copy of the planned file, if any. -/
theorem nameEntries_spec {p : Plan} {group : Archive} (h : nameEntries files p name = .ok group) :
    (∀ e ∈ group, e.isDir = false →
      ∃ path, Assoc.get? p.files name = some path ∧ copied files path name = .ok e) ∧
    ∀ path, Assoc.get? p.files name = some path → ∃ e ∈ group, copied files path name = .ok e := by
  have hdir : ∀ (b : Bool) (e : Archive.Entry), e.isDir = false →
      e ∉ (if b then [⟨name ++ "/", [], some Archive.dirMode⟩] else [] : Archive) := by
    intro b e hfile hmem
    cases b with
    | false => cases hmem
    | true =>
      rw [mem_singleton.1 hmem] at hfile
      simp [Archive.Entry.isDir] at hfile
  unfold nameEntries at h
  dsimp only at h
  cases hget : Assoc.get? p.files name with
  | none =>
    rw [hget] at h
    rw [← Except.ok.inj h]
    exact ⟨fun e he hfile => absurd he (hdir _ e hfile), nofun⟩
  | some path =>
    rw [hget] at h
    obtain ⟨copy, hcopy, h⟩ := bind_ok_iff.1 h
    rw [← pure_ok_iff.1 h]
    constructor
    · intro e he hfile
      rcases mem_append.1 he with he | he
      · exact absurd he (hdir _ e hfile)
      · rw [mem_singleton.1 he]
        exact ⟨path, rfl, hcopy⟩
    · intro path' hpath'
      cases hpath'
      exact ⟨copy, by simp, hcopy⟩

/-- What a plan asks for: directories, and a copy of every planned file. -/
theorem planEntries_spec {p : Plan} {body : Archive} (h : planEntries files p = .ok body) :
    (∀ e ∈ body, e.isDir = false →
      ∃ name path, Assoc.get? p.files name = some path ∧ copied files path name = .ok e) ∧
    ∀ name path, Assoc.get? p.files name = some path →
      ∃ e ∈ body, copied files path name = .ok e := by
  obtain ⟨groups, hgroups, h⟩ := bind_ok_iff.1 h
  obtain rfl := pure_ok_iff.1 h
  constructor
  · intro e he hfile
    obtain ⟨group, hgroup, he⟩ := mem_flatten.1 he
    obtain ⟨name, -, hname⟩ := exists_of_mem_mapM hgroups hgroup
    exact ⟨name, (nameEntries_spec hname).1 e he hfile⟩
  · intro name path hget
    have hmem : name ∈ p.names := by
      rw [Plan.names, sortedStrings_eq, mem_insertionSort, mem_eraseDups]
      exact mem_append_right _ (mem_map.2 ⟨_, Assoc.mem_of_get? hget, rfl⟩)
    obtain ⟨group, hgroup, hname⟩ := exists_mem_of_mapM hgroups hmem
    obtain ⟨e, he, hcopied⟩ := (nameEntries_spec hname).2 path hget
    exact ⟨e, mem_flatten.2 ⟨group, hgroup, he⟩, hcopied⟩

def planLabels (p : Plan) (name : String) : List (String × Option Nat) :=
  (if p.dirs.contains name then [copyLabel true name] else []) ++
    if Assoc.contains p.files name then [copyLabel false name] else []

theorem labels_planEntries {p : Plan} {body : Archive}
    (hfiles : ∀ name path, Assoc.get? p.files name = some path →
      storedName name = name ∧ files.isDir path = false)
    (h : planEntries files p = .ok body) : body.map label = p.names.flatMap (planLabels p) := by
  obtain ⟨groups, hgroups, h⟩ := bind_ok_iff.1 h
  rw [← pure_ok_iff.1 h, map_flatten, flatMap_def]
  refine congrArg flatten (map_of_mapM (fun name group hgroup => ?_) hgroups)
  have hdir : ∀ b : Bool,
      ((if b then [⟨name ++ "/", [], some Archive.dirMode⟩] else [] : Archive).map label) =
        if b then [copyLabel true name] else [] := by
    intro b
    cases b <;> rfl
  unfold nameEntries at hgroup
  dsimp only at hgroup
  unfold planLabels Assoc.contains
  cases hget : Assoc.get? p.files name with
  | none =>
    rw [hget] at hgroup
    rw [← Except.ok.inj hgroup, hdir]
    simp
  | some path =>
    rw [hget] at hgroup
    obtain ⟨copy, hcopy, hgroup⟩ := bind_ok_iff.1 hgroup
    obtain ⟨hname, hfile⟩ := hfiles name path hget
    have hcopy := label_of_copied hcopy
    rw [hname, hfile] at hcopy
    rw [← pure_ok_iff.1 hgroup, map_append, hdir, map_singleton, hcopy]
    rfl

def iconLabels (files : Files) (options : Members) (key name : String) :
    List (String × Option Nat) :=
  ((Assoc.get? options key).map fun icon =>
    copyLabel (files.isDir icon.plain.display) name).toList

theorem labels_iconEntry {key : String} {icon : Archive}
    (h : iconEntry files options key name = .ok icon) (hname : IsName name) :
    icon.map label = iconLabels files options key name := by
  have hstored : storedName (below name []) = below name [] :=
    storedName_below fun n hn => mem_singleton.1 hn ▸ hname
  unfold iconEntry at h
  unfold iconLabels
  cases hget : Assoc.get? options key with
  | none =>
    rw [hget] at h
    cases h
    rfl
  | some path =>
    rw [hget] at h
    obtain ⟨copy, hcopy, h⟩ := bind_ok_iff.1 h
    rw [← pure_ok_iff.1 h, map_singleton, label_of_copied hcopy, ← below_nil name, hstored]
    rfl

def tableLabels (members : Members) : List (String × Option Nat) :=
  (members.mergeSort fun a b => Text.le a.1 b.1).map fun x =>
    ("locale/" ++ x.1.display ++ ".json", some Archive.fileMode)

theorem labels_localeEntries {locale : Value} {locales : Archive}
    (h : localeEntries locale = .ok locales) :
    ∃ members, entriesOf locale = .ok members ∧
      locales.map label = copyLabel true "locale" :: tableLabels members ++
        [("locales.json", some Archive.fileMode)] := by
  unfold localeEntries at h
  obtain ⟨members, hmembers, h⟩ := bind_ok_iff.1 h
  obtain ⟨tables, htables, h⟩ := bind_ok_iff.1 h
  obtain ⟨text, -, h⟩ := bind_ok_iff.1 h
  obtain ⟨bytes, -, h⟩ := bind_ok_iff.1 h
  refine ⟨members, hmembers, ?_⟩
  rw [← pure_ok_iff.1 h, map_append, map_cons, tableLabels,
    ← map_of_mapM (fun x table htable => ?_) htables]
  · rfl
  · obtain ⟨text, -, htable⟩ := bind_ok_iff.1 htable
    obtain ⟨bytes, -, htable⟩ := bind_ok_iff.1 htable
    rw [← pure_ok_iff.1 htable]
    rfl

/-- The entries of the two icons. -/
def icons (files : Files) (options : Members) : List (String × Option Nat) :=
  iconLabels files options "icon" "icon.png" ++ iconLabels files options "icon64" "icon64.png"

theorem exists_of_mem_icons {x : String × Option Nat} (hx : x ∈ icons files options) :
    ∃ name ∈ ["icon.png", "icon64.png"], ∃ dir, x = copyLabel dir name := by
  rcases mem_append.1 hx with hx | hx
  · obtain ⟨icon, -, rfl⟩ := Option.map_eq_some_iff.1 (Option.mem_toList.1 hx)
    exact ⟨"icon.png", by simp, _, rfl⟩
  · obtain ⟨icon, -, rfl⟩ := Option.map_eq_some_iff.1 (Option.mem_toList.1 hx)
    exact ⟨"icon64.png", by simp, _, rfl⟩

def frontLabels (files : Files) (options members : Members) : List (String × Option Nat) :=
  ("install.rdf", none) :: (icons files options ++ (copyLabel true "locale" ::
    tableLabels members ++ [("locales.json", some Archive.fileMode)]))

theorem getLast?_append_json (name : String) : (name ++ ".json").toList.getLast? ≠ some '/' := by
  rw [String.toList_append, getLast?_append_of_ne_nil _ (by decide)]
  decide

/-- What stands before the plan is a directory, an icon, or a file by its name and mode. -/
theorem frontLabels_cases {members : Members} {x : String × Option Nat}
    (hx : x ∈ frontLabels files options members) :
    x = copyLabel true "locale" ∨ x ∈ icons files options ∨
      x.1.toList.head? ≠ some 'r' ∧ x.1.toList.getLast? ≠ some '/' ∧
        x.2 ∉ [some Archive.dirMode, some copiedMode] := by
  simp only [frontLabels, tableLabels, mem_cons, mem_append, mem_map, not_mem_nil, or_false] at hx
  rcases hx with rfl | hx | (rfl | ⟨y, -, rfl⟩) | rfl
  · exact .inr (.inr (by decide))
  · exact .inr (.inl hx)
  · exact .inl rfl
  · exact .inr (.inr ⟨by simp, getLast?_append_json _, show some Archive.fileMode ∉ _ by decide⟩)
  · exact .inr (.inr (by decide))

/-- **The parts of an archive:** description, icons and locales, the plan, and the options. -/
theorem entries_eq {left : Members} {archive : Archive}
    (h : entries files s options = .ok (archive, left)) :
    ∃ pkgs plan locale members front body bytes, Assoc.get? options "packages" = some pkgs ∧
      planPackages files s pkgs (planTemplate files s (planChrome files s {})) = .ok plan ∧
      Assoc.get? options "locale" = some locale ∧ entriesOf locale = .ok members ∧
      planEntries files plan.withParents = .ok body ∧
      front.map label = frontLabels files options members ∧
      archive = front ++ body ++ [⟨"harness-options.json", bytes, none⟩] := by
  have hmember : ∀ {key : String} {v : Value}, member options key = .ok v →
      Assoc.get? options key = some v := by
    intro key v hv
    unfold member at hv
    split at hv
    · rename_i hget
      cases hv
      exact hget
    · cases hv
  unfold entries at h
  obtain ⟨icon, hicon, h⟩ := bind_ok_iff.1 h
  obtain ⟨icon64, hicon64, h⟩ := bind_ok_iff.1 h
  obtain ⟨pkgs, hpkgs, h⟩ := bind_ok_iff.1 h
  obtain ⟨plan, hplan, h⟩ := bind_ok_iff.1 h
  obtain ⟨locale, hlocale, h⟩ := bind_ok_iff.1 h
  obtain ⟨locales, hlocales, h⟩ := bind_ok_iff.1 h
  obtain ⟨body, hbody, h⟩ := bind_ok_iff.1 h
  obtain ⟨all, -, h⟩ := bind_ok_iff.1 h
  obtain ⟨written, -, h⟩ := bind_ok_iff.1 h
  obtain ⟨bytes, -, h⟩ := bind_ok_iff.1 h
  cases pure_ok_iff.1 h
  obtain ⟨members, hmembers, hlabels⟩ := labels_localeEntries hlocales
  refine ⟨pkgs, plan, locale, members, _, body, bytes, hmember hpkgs, hplan,
    hmember hlocale, hmembers, hbody, ?_, rfl⟩
  rw [map_append, map_append, map_append, labels_iconEntry hicon (by decide),
    labels_iconEntry hicon64 (by decide), hlabels]
  simp [label, frontLabels, icons]

theorem head?_of_mem_frontLabels {members : Members} {x : String × Option Nat}
    (hx : x ∈ frontLabels files options members) : x.1.toList.head? ≠ some 'r' := by
  have hicon : ∀ name ∈ ["icon.png", "icon64.png"], ∀ dir,
      (copyLabel dir name).1.toList.head? ≠ some 'r' := by decide
  rcases frontLabels_cases hx with rfl | hx | ⟨hhead, -⟩
  · decide
  · obtain ⟨name, hname, dir, rfl⟩ := exists_of_mem_icons hx
    exact hicon name hname dir
  · exact hhead

end AddonBuilder.Extension
