import AddonBuilder.Proofs.Linker.Sections
import AddonBuilder.Proofs.Linker.Sources
import AddonBuilder.Proofs.Linker.Straight

/-!
# Modules with one path

The path of a module leaves out the name of the library, the section of what is no test, and one
ending.
-/

namespace AddonBuilder.Linker

open Json Text Assoc Package

/-! ## Endings -/

theorem withoutEnding_eq_self {name : String} (h : endsWith name ".js" = false) :
    withoutEnding name = name := by
  have hnone : beforeEnd? name ".js" = none := by
    rw [endsWith, Option.isSome_eq_false_iff, Option.isNone_iff_eq_none] at h
    rw [beforeEnd?, h, Option.map_none]
  rw [withoutEnding, hnone, Option.getD_none]

/-- Two names are the same without their endings exactly if they are the same, or one of them has an
ending and is the other one otherwise. -/
theorem withoutEnding_eq_iff {a b : String} :
    withoutEnding a = withoutEnding b ↔ a = b ∨
      endsWith a ".js" = false ∧ b = a ++ ".js" ∨
      endsWith b ".js" = false ∧ a = b ++ ".js" := by
  constructor
  · intro h
    by_cases ha : endsWith a ".js"
    · obtain ⟨a', rfl⟩ := endsWith_iff.1 ha
      rw [withoutEnding_append] at h
      by_cases hb : endsWith b ".js"
      · obtain ⟨b', rfl⟩ := endsWith_iff.1 hb
        rw [withoutEnding_append] at h
        exact .inl (by rw [h])
      · rw [Bool.not_eq_true] at hb
        rw [withoutEnding_eq_self hb] at h
        exact .inr (.inr ⟨hb, by rw [h]⟩)
    · rw [Bool.not_eq_true] at ha
      rw [withoutEnding_eq_self ha] at h
      by_cases hb : endsWith b ".js"
      · obtain ⟨b', rfl⟩ := endsWith_iff.1 hb
        rw [withoutEnding_append] at h
        exact .inr (.inl ⟨ha, by rw [h]⟩)
      · rw [Bool.not_eq_true] at hb
        rw [withoutEnding_eq_self hb] at h
        exact .inl h
  · rintro (rfl | ⟨ha, rfl⟩ | ⟨hb, rfl⟩)
    · rfl
    · rw [withoutEnding_append, withoutEnding_eq_self ha]
    · rw [withoutEnding_append, withoutEnding_eq_self hb]

theorem fileName_append {name : String} (h : endsWith name ".js" = false) :
    (fileName (name ++ ".js")).1 = (fileName name).1 ∨ ∃ stem, name = stem ++ ".json" := by
  have hending : endsWith (name ++ ".js") ".js" := endsWith_iff.2 ⟨_, rfl⟩
  unfold fileName
  rw [if_pos hending, h]
  simp only [Bool.false_eq_true, if_false]
  cases hjson : beforeEnd? name ".json" with
  | none => exact .inl rfl
  | some stem => exact .inr ⟨stem, beforeEnd?_eq_some_iff.1 hjson⟩

/-! ## Paths -/

namespace Place

variable {p q : Place}

def inside (p : Place) : String :=
  (if p.sec = "tests" then "tests/" else "") ++ withoutEnding p.name

theorem path_eq (p : Place) :
    p.path = (if p.pkg = libraryName then "" else p.pkg ++ "/") ++ p.inside := by
  unfold path inside
  by_cases hpkg : p.pkg = libraryName
  · rw [if_pos hpkg, if_pos hpkg, String.empty_append]
    by_cases hsection : p.sec = "tests"
    · rw [if_pos hsection, if_pos hsection, hsection]
      rfl
    · rw [if_neg hsection, if_neg hsection]
      rfl
  · rw [if_neg hpkg, if_neg hpkg]
    by_cases hsection : p.sec = "tests"
    · have hjoined : joinStrings "/" [p.pkg, "tests", withoutEnding p.name] =
          p.pkg ++ "/" ++ "tests" ++ "/" ++ withoutEnding p.name := rfl
      have htests : "tests" ++ "/" = "tests/" := rfl
      rw [if_pos hsection, if_pos hsection, hsection, ← htests]
      simp only [List.cons_append, List.nil_append, hjoined, String.append_assoc]
    · rw [if_neg hsection, if_neg hsection, String.empty_append]
      rfl

/-- The first place is one of the library, whose names start with the package of the second one. -/
def LooksLikePackage (p q : Place) : Prop :=
  p.pkg = libraryName ∧ q.pkg ≠ libraryName ∧ p.inside = q.pkg ++ "/" ++ q.inside

/-- The first place is one of a package, whose names start like those of tests. -/
def LooksLikeTest (p q : Place) : Prop :=
  p.pkg = q.pkg ∧ p.sec ≠ "tests" ∧ q.sec = "tests" ∧
    withoutEnding p.name = "tests/" ++ withoutEnding q.name

/-- Two places in the same part of one package, with names that differ by an ending at most. -/
def Beside (p q : Place) : Prop :=
  p.pkg = q.pkg ∧ (p.sec = "tests" ↔ q.sec = "tests") ∧ withoutEnding p.name = withoutEnding q.name

theorem inside_eq_inside_iff (hpkg : p.pkg = q.pkg) :
    p.inside = q.inside ↔ LooksLikeTest p q ∨ LooksLikeTest q p ∨ Beside p q := by
  unfold inside LooksLikeTest Beside
  by_cases hp : p.sec = "tests"
  · by_cases hq : q.sec = "tests"
    · rw [if_pos hp, if_pos hq, String.append_right_inj]
      simp [hp, hq, hpkg]
    · rw [if_pos hp, if_neg hq, String.empty_append, eq_comm]
      simp [hp, hq, hpkg]
  · by_cases hq : q.sec = "tests"
    · rw [if_neg hp, if_pos hq, String.empty_append]
      simp [hp, hq, hpkg]
    · rw [if_neg hp, if_neg hq, String.empty_append, String.empty_append]
      simp [hp, hq, hpkg]

theorem append_slash_inj {a b c d : String} (ha : '/' ∉ a.toList) (hb : '/' ∉ b.toList) :
    a ++ "/" ++ c = b ++ "/" ++ d ↔ a = b ∧ c = d := by
  constructor
  · intro h
    have hnames := congrArg Path.names h
    rw [Path.names_append_slash, Path.names_append_slash, Path.names_of_not_mem ha,
      Path.names_of_not_mem hb, List.singleton_append, List.singleton_append] at hnames
    obtain rfl := (List.cons.inj hnames).1
    exact ⟨rfl, (String.append_right_inj _).1 h⟩
  · rintro ⟨rfl, rfl⟩
    rfl

/-- **The ways in which two places can have one path.** -/
theorem path_eq_path_iff (hp : '/' ∉ p.pkg.toList) (hq : '/' ∉ q.pkg.toList) :
    p.path = q.path ↔ LooksLikePackage p q ∨ LooksLikePackage q p ∨ LooksLikeTest p q ∨
      LooksLikeTest q p ∨ Beside p q := by
  have hother : ∀ {a b : Place}, a.pkg ≠ b.pkg →
      ¬ (LooksLikeTest a b ∨ LooksLikeTest b a ∨ Beside a b) := by
    rintro a b hne (h | h | h)
    · exact hne h.1
    · exact hne h.1.symm
    · exact hne h.1
  rw [path_eq, path_eq]
  by_cases hlibrary : p.pkg = libraryName
  · by_cases hlibrary' : q.pkg = libraryName
    · rw [if_pos hlibrary, if_pos hlibrary', String.empty_append, String.empty_append,
        inside_eq_inside_iff (hlibrary.trans hlibrary'.symm)]
      simp [LooksLikePackage, hlibrary, hlibrary']
    · have hne : p.pkg ≠ q.pkg := fun h => hlibrary' (h ▸ hlibrary)
      rw [if_pos hlibrary, if_neg hlibrary', String.empty_append]
      have hno := hother hne
      simp [LooksLikePackage, hlibrary, hlibrary', hno]
  · by_cases hlibrary' : q.pkg = libraryName
    · have hne : p.pkg ≠ q.pkg := fun h => hlibrary (h ▸ hlibrary')
      rw [if_neg hlibrary, if_pos hlibrary', String.empty_append, eq_comm]
      have hno := hother hne
      simp [LooksLikePackage, hlibrary, hlibrary', hno]
    · rw [if_neg hlibrary, if_neg hlibrary', append_slash_inj hp hq]
      by_cases hpkg : p.pkg = q.pkg
      · rw [inside_eq_inside_iff hpkg]
        simp [LooksLikePackage, hlibrary', hpkg]
      · have hno := hother hpkg
        simp [LooksLikePackage, hlibrary, hlibrary', hpkg, hno]

end Place

/-! ## Modules that share a path -/

/-- A module that is not found by its name: its file is given, and may give it its name. -/
inductive Given (s : Setting) (scope : Scope) : Module → Prop
  | top {main : Value} {m : Module} (hmain : get? s.target "main" = some main)
      (hm : topModule s main = .ok m) : Given s scope m
  | main {m : Module} (hm : MainOf s m) : Given s scope m
  | test {m : Module} (hm : ScannedTest s scope m) : Given s scope m
  | extra {m : Module} {x : ExtraModule} (hx : x ∈ scope.extra) (hm : extraModule s x = .ok m) :
      Given s scope m

section Modules

variable {s : Setting} {scope : Scope} {m m' : Module}

theorem located_of_findRunner {t t' : Trail} (hrun : Runs (findRunner s) t (.ok m) t') :
    Located s ["lib"] "sdk/test/runner" (ofString libraryName) m := by
  have hE : Covers s fun _ => True := ⟨fun _ _ => trivial, fun _ _ _ _ _ => trivial⟩
  have hgives : Gives (findRunner s) (Located s ["lib"] "sdk/test/runner" (ofString libraryName))
      fun _ => True := by
    refine (gives_inPackage hE (by simp) fun _ => trivial).bind fun found hfound => ?_
    cases found with
    | none => exact gives_throw trivial
    | some m => exact gives_pure (hfound m rfl)
  exact (hgives _ _ _ hrun).1 m rfl

/-- Every module of a program is given, or found by its name. -/
theorem Met.given_or_located (h : Met s scope m) :
    Given s scope m ∨ ∃ sections name pkg, (∀ x ∈ sections, x ∈ ["tests", "lib"]) ∧
      Located s sections name pkg m := by
  cases h with
  | start hstart =>
    cases hstart with
    | main hmain hm => exact .inl (.top hmain hm)
    | runner htests hm =>
      obtain ⟨trail, hm⟩ := hm
      exact .inr ⟨_, _, _, by simp, located_of_findRunner hm⟩
    | test htests hdirs hpkg hdir hlist hm =>
      exact .inl (.test ⟨htests, _, _, _, _, hdirs, hpkg, hdir, hlist, hm⟩)
    | extra hx hm => exact .inl (.extra hx hm)
  | asked hm hasks hfree hmeans =>
    obtain ⟨sections, hvisible, hlocated⟩ := hmeans.leads
    have hsections := (visibleSections_spec _).1 _ hvisible
    rcases hlocated with ⟨-, inside, -, hm⟩ | ⟨-, hmain | ⟨n, -, owner, hm⟩⟩
    · exact .inr ⟨_, _, _, hsections, hm⟩
    · exact .inl (.main hmain)
    · exact .inr ⟨_, _, _, hsections, hm⟩

/-- The first name is that of a JSON file, and the second one is that of a source file beside it. -/
def JsonBeside (a b : String) : Prop := ∃ stem, a = stem ++ ".json" ∧ b = stem ++ ".json" ++ ".js"

variable (hfiled : Filed s.pkgs) (hcharacters : ∀ key ∈ keys s.pkgs, key.Characters)

include hfiled hcharacters

/-- The package of a module that was found by its name is known by the name that the module has for
it. -/
theorem Located.cfg {sections : List String} {name : String} {pkg : Text}
    (h : Located s sections name pkg m) :
    ∃ cfg root, get? s.pkgs (ofString m.pkg) = some cfg ∧ rootDir cfg = .ok root ∧
      fileIn? s cfg root m.sec (fileName m.name).1 = some m.file := by
  obtain ⟨cfg, root, owner, hcfg, hroot, howner, hpkg, hfile, -⟩ := h.owned
  have hkey : pkg ∈ keys s.pkgs := contains_iff.1 (Option.isSome_iff_exists.2 ⟨cfg, hcfg⟩)
  obtain rfl := hfiled _ cfg owner hcfg howner
  refine ⟨cfg, root, ?_, hroot, h.name_eq ▸ hfile⟩
  rw [hpkg, ofString_display (hcharacters _ hkey), hcfg]

/-- Modules of one section that are found by names of one path are JSON and source, or the same. -/
theorem exists_json {sections sections' : List String} {name name' : String}
    {pkg pkg' : Text} (h : Located s sections name pkg m)
    (h' : Located s sections' name' pkg' m') (hpkg : m.pkg = m'.pkg)
    (hsection : m.sec = m'.sec) (hname : withoutEnding m.name = withoutEnding m'.name)
    (hfile : m.file ≠ m'.file) : JsonBeside m.name m'.name ∨ JsonBeside m'.name m.name := by
  obtain ⟨cfg, root, hcfg, hroot, hin⟩ := h.cfg hfiled hcharacters
  obtain ⟨cfg', root', hcfg', hroot', hin'⟩ := h'.cfg hfiled hcharacters
  rw [← hpkg, hcfg] at hcfg'
  obtain rfl := Option.some.inj hcfg'
  obtain rfl : root = root' := Except.ok.inj (hroot.symm.trans hroot')
  have hdiffer : (fileName m.name).1 ≠ (fileName m'.name).1 := by
    intro hsame
    rw [← hsection, ← hsame, hin] at hin'
    exact hfile (Option.some.inj hin')
  rcases withoutEnding_eq_iff.1 hname with heq | ⟨hending, heq⟩ | ⟨hending, heq⟩
  · exact absurd (by rw [heq]) hdiffer
  · rcases fileName_append hending with hsame | ⟨stem, hstem⟩
    · exact absurd (by rw [heq, hsame]) hdiffer
    · exact .inl ⟨stem, hstem, by rw [heq, hstem]⟩
  · rcases fileName_append hending with hsame | ⟨stem, hstem⟩
    · exact absurd (by rw [heq, hsame]) hdiffer
    · exact .inr ⟨stem, hstem, by rw [heq, hstem]⟩

/-- Two modules with different files and names of one path in the same part of a package. -/
theorem given_or_json (hm : Met s scope m) (hm' : Met s scope m')
    (hbeside : Place.Beside m.toPlace m'.toPlace) (hfile : m.file ≠ m'.file) :
    JsonBeside m.name m'.name ∨ JsonBeside m'.name m.name ∨ Given s scope m ∨ Given s scope m' := by
  obtain ⟨hpkg, htests, hname⟩ := hbeside
  rcases hm.given_or_located with hgiven | ⟨sections, name, pkg, hsections, hlocated⟩
  · exact .inr (.inr (.inl hgiven))
  rcases hm'.given_or_located with hgiven | ⟨sections', name', pkg', hsections', hlocated'⟩
  · exact .inr (.inr (.inr hgiven))
  have hsection : m.sec = m'.sec := by
    have hmem := hsections _ hlocated.visible
    have hmem' := hsections' _ hlocated'.visible
    grind
  rcases exists_json hfiled hcharacters hlocated hlocated' hpkg hsection hname hfile with h | h
  · exact .inl h
  · exact .inr (.inl h)

end Modules

/-! ## Rows -/

theorem length_ofList_eq_iff {κ α : Type} [DecidableEq κ] (l : List (κ × α)) :
    (ofList l).length = l.length ↔ (keys l).Nodup := by
  have hnodup : (keys (ofList l)).Nodup := (merge_spec (m := []) List.nodup_nil l).2
  have hsame : (keys (ofList l)).toFinset = (keys l).toFinset := by
    ext k
    rw [List.mem_toFinset, List.mem_toFinset, ← contains_iff, contains_ofList]
  have hlen : (ofList l).length = (keys l).toFinset.card := by
    rw [← hsame, List.toFinset_card_of_nodup hnodup, keys, List.length_map]
  rw [hlen, ← List.length_map (f := Prod.fst)]
  exact Multiset.toFinset_card_eq_card_iff_nodup

/-- A manifest is shipped with one row for each entry exactly if no two entries share a path. -/
theorem length_members_iff {σ : Manifest} {rows : Members} (h : σ.members true = .ok rows) :
    rows.length = σ.entries.length ↔ (σ.entries.map fun x => x.1.path).Nodup := by
  have hall : σ.entries.filter (fun x => Manifest.counts true x.1) = σ.entries :=
    List.filter_eq_self.2 fun _ _ => rfl
  unfold Manifest.members at h
  rw [hall] at h
  obtain ⟨list, hlist, h⟩ := bind_ok_iff.1 h
  obtain rfl := pure_ok_iff.1 h
  have hkeys : keys list = (σ.entries.map fun x => x.1.path).map ofString := by
    rw [List.map_map]
    refine map_of_mapM (fun x row hrow => ?_) hlist
    obtain ⟨value, -, hrow⟩ := bind_ok_iff.1 hrow
    cases hrow
    rfl
  have hlen : list.length = σ.entries.length := by
    have hmap := congrArg List.length hkeys
    simpa [keys] using hmap
  rw [← hlen, length_ofList_eq_iff, hkeys, List.nodup_map_iff ofString_injective]

/-- **Which entries share a path.**  Of two entries with different files, in packages whose names
have no slash, the paths are the same exactly if a module of the library is named like a module of a
package, a module of a package like one of its tests, or the two names in one part of a package
differ by an ending, and then they are those of a JSON file and of a source file beside it, or one of
the modules is given with its file.  The manifest has a row for each entry exactly if no two entries
share a path. -/
theorem link_paths {s : Setting} {scope : Scope} {depth : Nat} {r : Except Stop Unit}
    {σ : Manifest} (hlink : link s scope depth = (r, σ)) (hfiled : Package.Filed s.pkgs)
    (hcharacters : ∀ key ∈ Assoc.keys s.pkgs, key.Characters) :
    (∀ p q e e' h h', (p, e) ∈ σ.entries → (q, e') ∈ σ.entries →
      e.source = some h → e'.source = some h' → h.file ≠ h'.file →
      '/' ∉ p.pkg.toList → '/' ∉ q.pkg.toList →
      (p.path = q.path ↔
        p.LooksLikePackage q ∨ q.LooksLikePackage p ∨ p.LooksLikeTest q ∨ q.LooksLikeTest p ∨
          p.Beside q ∧ (JsonBeside p.name q.name ∨ JsonBeside q.name p.name ∨
            ∃ m, Given s scope m ∧ (m.toPlace = p ∧ m.file = h.file ∨
              m.toPlace = q ∧ m.file = h'.file)))) ∧
      ∀ rows, σ.members true = .ok rows →
        (rows.length = σ.entries.length ↔ (σ.entries.map fun x => x.1.path).Nodup) := by
  refine ⟨?_, fun rows => length_members_iff⟩
  intro p q e e' h h' hp hq hsource hsource' hfile hslash hslash'
  obtain ⟨⟨m, hm, rfl, hmfile⟩, -⟩ := (link_backed hlink).source p e h hp hsource
  obtain ⟨⟨m', hm', rfl, hmfile'⟩, -⟩ := (link_backed hlink).source q e' h' hq hsource'
  rw [Place.path_eq_path_iff hslash hslash']
  constructor
  · rintro (h | h | h | h | hbeside)
    · exact .inl h
    · exact .inr (.inl h)
    · exact .inr (.inr (.inl h))
    · exact .inr (.inr (.inr (.inl h)))
    · refine .inr (.inr (.inr (.inr ⟨hbeside, ?_⟩)))
      have hdiffer : m.file ≠ m'.file := by rwa [hmfile, hmfile']
      rcases given_or_json hfiled hcharacters hm hm' hbeside hdiffer with hj | hj | hg | hg
      · exact .inl hj
      · exact .inr (.inl hj)
      · exact .inr (.inr ⟨m, hg, .inl ⟨rfl, hmfile⟩⟩)
      · exact .inr (.inr ⟨m', hg, .inr ⟨rfl, hmfile'⟩⟩)
  · grind

theorem filed_lone (tree : FileTree) : Filed (lone tree).pkgs := by
  have hname : name loneConfig = .ok (ofString "lone") := rfl
  exact filed_nil.insert hname

theorem characters_lone (tree : FileTree) : ∀ key ∈ keys (lone tree).pkgs, key.Characters := by
  intro key hkey
  obtain rfl : key = ofString "lone" := List.mem_singleton.1 hkey
  exact characters_ofString _

/-- A JSON file beside a source file, which are both asked for. -/
def twins : Setting :=
  lone [source ["lib", "main.js"] "require('./x.json');require('./x.json.js')",
    source ["lib", "x.json"] "", source ["lib", "x.json.js"] ""]

theorem link_twins :
    (link twins {} 3).1.isOk ∧
      (link twins {} 3).2.entries.map (fun x => (x.1, x.2.source.map (·.file))) =
        [(⟨"lone", "lib", "main"⟩, some "/lib/main.js"),
          (⟨"lone", "lib", "x.json"⟩, some "/lib/x.json"),
          (⟨"lone", "lib", "x.json.js"⟩, some "/lib/x.json.js")] := by
  decide +kernel

theorem exists_entry_twins (name file : String)
    (h : (name, file) ∈ [("x.json", "/lib/x.json"), ("x.json.js", "/lib/x.json.js")]) :
    ∃ e x, ((⟨"lone", "lib", name⟩ : Place), e) ∈ (link twins {} 3).2.entries ∧
      e.source = some x ∧ x.file = file := by
  have hmem : ((⟨"lone", "lib", name⟩ : Place), some file) ∈
      (link twins {} 3).2.entries.map (fun x => (x.1, x.2.source.map (·.file))) := by
    rw [link_twins.2]
    simp only [List.mem_cons, Prod.mk.injEq, List.not_mem_nil, or_false] at h
    rcases h with ⟨rfl, rfl⟩ | ⟨rfl, rfl⟩
    · exact List.mem_cons_of_mem _ List.mem_cons_self
    · exact List.mem_cons_of_mem _ (List.mem_cons_of_mem _ List.mem_cons_self)
  obtain ⟨⟨p, e⟩, he, heq⟩ := List.mem_map.1 hmem
  obtain ⟨rfl, hfile⟩ := Prod.mk.inj heq
  obtain ⟨x, hx, hfile⟩ := Option.map_eq_some_iff.1 hfile
  exact ⟨e, x, he, hx, hfile⟩

/-- The two files have one path, and the manifest that is shipped misses one of them. -/
theorem link_paths_twins :
    ∃ σ, link twins {} 3 = (.ok (), σ) ∧ Package.Filed twins.pkgs ∧
      (∀ key ∈ Assoc.keys twins.pkgs, key.Characters) ∧
      Place.Beside ⟨"lone", "lib", "x.json"⟩ ⟨"lone", "lib", "x.json.js"⟩ ∧
      ∀ rows, σ.members true = .ok rows → rows.length ≠ σ.entries.length := by
  obtain ⟨hok, hentries⟩ := link_twins
  have hlink := ok_of_isOk hok
  have hfiled : Package.Filed twins.pkgs := filed_lone _
  have hcharacters : ∀ key ∈ Assoc.keys twins.pkgs, key.Characters := characters_lone _
  obtain ⟨hpaths, hrows⟩ := link_paths hlink hfiled hcharacters
  obtain ⟨e, x, he, hx, hfile⟩ := exists_entry_twins "x.json" "/lib/x.json" (by simp)
  obtain ⟨e', x', he', hx', hfile'⟩ := exists_entry_twins "x.json.js" "/lib/x.json.js" (by simp)
  have hiff := hpaths _ _ e e' x x' he he' hx hx' (by rw [hfile, hfile']; decide) (by decide)
    (by decide)
  refine ⟨_, hlink, hfiled, hcharacters, ?_, fun rows h hlen => ?_⟩
  · rcases hiff.1 (by decide) with h | h | h | h | ⟨h, -⟩
    · exact absurd h.1 (by decide)
    · exact absurd h.1 (by decide)
    · exact absurd h.2.2.1 (by decide)
    · exact absurd h.2.2.1 (by decide)
    · exact h
  · have hsame := congrArg (List.map fun x => x.1.path) hentries
    rw [List.map_map] at hsame
    have hsame : (link twins {} 3).2.entries.map (fun x => x.1.path) =
        ["lone/main", "lone/x.json", "lone/x.json"] := hsame.trans (by decide)
    have hnodup := (hrows rows h).1 hlen
    rw [hsame] at hnodup
    exact absurd hnodup (by decide)

/-- Different files can have one path. -/
theorem not_paths_apart :
    ∃ σ p q e e' h h', link twins {} 3 = (.ok (), σ) ∧ (p, e) ∈ σ.entries ∧ (q, e') ∈ σ.entries ∧
      e.source = some h ∧ e'.source = some h' ∧ h.file ≠ h'.file ∧ p.path = q.path := by
  obtain ⟨e, x, he, hx, hfile⟩ := exists_entry_twins "x.json" "/lib/x.json" (by simp)
  obtain ⟨e', x', he', hx', hfile'⟩ := exists_entry_twins "x.json.js" "/lib/x.json.js" (by simp)
  exact ⟨_, _, _, e, e', x, x', ok_of_isOk link_twins.1, he, he', hx, hx',
    by rw [hfile, hfile']; decide, by decide⟩

end AddonBuilder.Linker
