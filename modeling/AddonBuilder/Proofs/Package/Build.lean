import AddonBuilder.Package.Build
import AddonBuilder.Proofs.Files.Walk
import AddonBuilder.Proofs.Text.Utf8

/-!
# What a build registers

A build registers at most one directory for each section of a package, under a name that has passed
the check of names (`Grown`).
-/

namespace AddonBuilder.Package

open Json Text Assoc

/-! ## Checked names -/

variable {pkg sec : Text} {dir : String} {used : List Text}

/-- A name that can be the host of a resource address. -/
def IsHostName (name : Text) : Prop := name ≠ [] ∧ ∀ p ∈ name, isNamePoint p

/-- A checked name is that of a host, perhaps with a line feed at the end. -/
theorem checkName_spec {name : Text} (h : checkName name = .ok ()) :
    ∃ host, IsHostName host ∧ (name = host ∨ name = host ++ [0x0A]) := by
  unfold checkName at h
  split at h
  · cases h
  dsimp only at h
  split at h
  · cases h
  rename_i hbody
  simp only [Bool.or_eq_true, List.isEmpty_iff, Bool.not_eq_true', not_or, Bool.not_eq_false,
    List.all_eq_true] at hbody
  refine ⟨_, hbody, ?_⟩
  cases hdrop : dropEnd? [0x0A] name with
  | none => exact .inl rfl
  | some host =>
    obtain ⟨reversed, hreversed, rfl⟩ := Option.map_eq_some_iff.1 hdrop
    have hsplit := dropStart?_eq_some_iff.1 hreversed
    refine .inr ?_
    rw [Option.getD_some, ← List.reverse_inj, hsplit]
    simp

theorem points_of_checkName {name : Text} (h : checkName name = .ok ()) :
    (∃ first ∈ name.head?, isNamePoint first) ∧ ∀ p ∈ name, isNamePoint p ∨ p = 0x0A := by
  obtain ⟨host, ⟨hne, hall⟩, hname⟩ := checkName_spec h
  obtain ⟨first, rest, rfl⟩ := List.exists_cons_of_ne_nil hne
  rcases hname with rfl | rfl
  · exact ⟨⟨first, rfl, hall first List.mem_cons_self⟩, fun p hp => .inl (hall p hp)⟩
  · refine ⟨⟨first, rfl, hall first List.mem_cons_self⟩, fun p hp => ?_⟩
    grind

theorem isNamePoint_cases {p : CodePoint} (h : isNamePoint p) :
    p.val < 0x80 ∧ p.val ≠ 0x2F ∧ p.val ≠ 0x2E := by
  simp only [isNamePoint, Bool.or_eq_true, Bool.and_eq_true, decide_eq_true_eq, beq_iff_eq] at h
  omega

theorem characters_of_checkName {name : Text} (h : checkName name = .ok ()) : name.Characters := by
  intro p hp
  rw [CodePoint.isSurrogate_eq_false_iff]
  rcases (points_of_checkName h).2 p hp with hp | rfl
  · exact .inl (Nat.lt_trans (isNamePoint_cases hp).1 (by decide))
  · exact .inl (by decide)

theorem isName_of_checkName {name : Text} (h : checkName name = .ok ()) :
    ofString name.display = name ∧ Path.IsName name.display := by
  have hshown := ofString_display (characters_of_checkName h)
  obtain ⟨⟨first, hname, hfirst⟩, hall⟩ := points_of_checkName h
  have hdot : ∀ s : String, name.display = s → (ofString s).head? = some first := by
    intro s hs
    rw [← hs, hshown]
    exact hname
  have hpoint := isNamePoint_cases hfirst
  refine ⟨hshown, ⟨?_, ?_, ?_⟩, fun hslash => ?_⟩
  · intro hempty
    exact absurd (hdot _ hempty) nofun
  · intro hone
    obtain rfl := Option.some.inj (hdot _ hone)
    exact hpoint.2.2 rfl
  · intro htwo
    obtain rfl := Option.some.inj (hdot _ htwo)
    exact hpoint.2.2 rfl
  · have hmem : CodePoint.ofChar '/' ∈ name := by
      rw [← hshown]
      exact List.mem_map_of_mem hslash
    rcases hall _ hmem with hp | hp
    · exact (isNamePoint_cases hp).2.1 rfl
    · exact absurd hp (by decide)

/-! ## Registered sections -/

def Build.Registers (b : Build) (pkg sec : Text) (dir : String) : Prop :=
  ∃ sections, get? b.pkgs pkg = some sections ∧ get? sections sec = some dir

def Build.register (b : Build) (pkg sec : Text) (dir : String) : Build :=
  let sections := (get? b.pkgs pkg).getD []
  { b with pkgs := insert b.pkgs pkg (insert sections sec dir) }

/-- The directories of a section as a description lists them.  A text stands for itself. -/
def sectionValues (cfg : Config) (sec : String) : Except Fault (List Value) :=
  match get? cfg sec with
  | none => .ok []
  | some (.text t) => .ok [.text t]
  | some v => asElements v

def sectionNames : List Text :=
  [ofString "lib", ofString "data", ofString "tests"]

/-- What is registered comes from a description of a package. -/
inductive Described (pkgs : Packages) : Text → Text → String → Prop
  | intro {key pkg : Text} {cfg : Config} {sec dir : String} {v : Value}
      (hcfg : get? pkgs key = some cfg) (hname : name cfg = .ok pkg)
      (hsection : ofString sec ∈ sectionNames)
      (hvalues : sectionValues cfg sec = .ok [v])
      (hdir : resolve cfg v = .ok dir) :
      Described pkgs pkg (ofString sec) dir

/-- A build in which every name is checked and every directory is described. -/
structure Build.Orderly (pkgs : Packages) (b : Build) : Prop where
  distinctPackages : (keys b.pkgs).Nodup
  distinctSections : ∀ pkg sections, (pkg, sections) ∈ b.pkgs → (keys sections).Nodup
  checked : ∀ pkg sections, (pkg, sections) ∈ b.pkgs → checkName pkg = .ok ()
  described : ∀ pkg sec dir, b.Registers pkg sec dir → Described pkgs pkg sec dir

/-- Every directory that a description lists for a section is registered. -/
def Build.Knows (b : Build) (cfg : Config) (sec : String) : Prop :=
  ∃ values, sectionValues cfg sec = .ok values ∧ ∀ v ∈ values, ∃ dir pkg,
    resolve cfg v = .ok dir ∧ name cfg = .ok pkg ∧
    b.Registers pkg sec dir

/-- What a step does to a build: nothing that is registered is lost, and order is kept. -/
structure Grown (pkgs : Packages) (b b' : Build) : Prop where
  keeps : ∀ pkg sec dir, b.Registers pkg sec dir → b'.Registers pkg sec dir
  orderly : b.Orderly pkgs → b'.Orderly pkgs

section Registering

variable {pkgs : Packages} {b b' b'' : Build} {cfg : Config}

theorem Build.Registers.unique {d d' : String}
    (h : b.Registers pkg sec d) (h' : b.Registers pkg sec d') : d = d' := by
  obtain ⟨sections, hsections, hd⟩ := h
  obtain ⟨sections', hsections', hd'⟩ := h'
  rw [hsections] at hsections'
  cases hsections'
  exact Option.some.inj (hd.symm.trans hd')

theorem Build.Orderly.registers_iff (h : b.Orderly pkgs) :
    b.Registers pkg sec dir ↔ ∃ sections, (pkg, sections) ∈ b.pkgs ∧ (sec, dir) ∈ sections := by
  unfold Registers
  simp only [get?_eq_some_iff h.distinctPackages]
  refine exists_congr fun sections => and_congr_right fun hmem => ?_
  rw [get?_eq_some_iff (h.distinctSections pkg sections hmem)]

theorem Grown.refl (pkgs : Packages) (b : Build) : Grown pkgs b b :=
  ⟨fun _ _ _ h => h, fun h => h⟩

theorem Grown.trans (h : Grown pkgs b b') (h' : Grown pkgs b' b'') : Grown pkgs b b'' :=
  ⟨fun p s d hd => h'.keeps p s d (h.keeps p s d hd), fun hb => h'.orderly (h.orderly hb)⟩

/-- A step that registers nothing. -/
theorem Grown.of_packages_eq (h : b'.pkgs = b.pkgs) : Grown pkgs b b' := by
  have hsame : ∀ p s d, b.Registers p s d ↔ b'.Registers p s d := fun p s d => by
    rw [Build.Registers, Build.Registers, h]
  refine ⟨fun p s d => (hsame p s d).1, fun hb => ⟨?_, ?_, ?_, ?_⟩⟩
  · rw [h]
    exact hb.distinctPackages
  · rw [h]
    exact hb.distinctSections
  · rw [h]
    exact hb.checked
  · exact fun p s d hd => hb.described p s d ((hsame p s d).2 hd)

theorem registers_register (b : Build) (pkg sec : Text) (dir : String) (p s : Text) (d : String) :
    (b.register pkg sec dir).Registers p s d ↔
      if pkg = p ∧ sec = s then dir = d else b.Registers p s d := by
  unfold Build.Registers Build.register
  simp only [get?_insert]
  by_cases hp : pkg = p
  · subst hp
    by_cases hs : sec = s
    · simp [get?_insert, hs]
    · cases hget : get? b.pkgs pkg <;> simp [get?_insert, hs]
  · simp [hp]

theorem addDir_eq_ok (h : addDir pkg sec b dir = .ok b') :
    checkName pkg = .ok () ∧ (∀ d, ¬ b.Registers pkg sec d) ∧ b' = b.register pkg sec dir := by
  unfold addDir at h
  cases hcheck : checkName pkg with
  | error bad =>
    rw [hcheck] at h
    cases h
  | ok _ =>
    rw [hcheck] at h
    dsimp only at h
    split at h
    · cases h
    · rename_i hnew
      refine ⟨rfl, ?_, (pure_ok_iff.1 h).symm⟩
      rintro d ⟨sections, hsections, hd⟩
      rw [hsections, Option.getD_some, contains, hd] at hnew
      exact hnew rfl

theorem addSection_eq (cfg : Config) (sec : String) (b : Build) :
    addSection cfg sec b = sectionValues cfg sec >>= fun values =>
      values.foldlM (fun b d => do
        let dir ← resolve cfg d
        addDir (← name cfg) sec b dir) b := by
  unfold addSection sectionValues
  split
  · rename_i hnone
    simp [hnone]
    rfl
  · rename_i dirs hsome
    rw [hsome]
    cases dirs <;> rfl

/-- A section has no directory, or one that is registered: a second one is refused. -/
theorem addSection_cases {sec : String} (h : addSection cfg sec b = .ok b') :
    (sectionValues cfg sec = .ok [] ∧ b' = b) ∨
      ∃ v dir pkg, sectionValues cfg sec = .ok [v] ∧ resolve cfg v = .ok dir ∧ name cfg = .ok pkg ∧
        checkName pkg = .ok () ∧ (∀ d, ¬ b.Registers pkg sec d) ∧
        b' = b.register pkg sec dir := by
  rw [addSection_eq] at h
  obtain ⟨values, hvalues, h⟩ := bind_ok_iff.1 h
  cases values with
  | nil => exact .inl ⟨hvalues, (pure_ok_iff.1 h).symm⟩
  | cons v rest =>
    rw [List.foldlM_cons] at h
    obtain ⟨c, hc, h⟩ := bind_ok_iff.1 h
    obtain ⟨dir, hdir, hc⟩ := bind_ok_iff.1 hc
    obtain ⟨pkg, hpkg, hc⟩ := bind_ok_iff.1 hc
    obtain ⟨hcheck, hnew, rfl⟩ := addDir_eq_ok hc
    cases rest with
    | nil =>
      exact .inr ⟨v, dir, pkg, hvalues, hdir, hpkg, hcheck, hnew, (pure_ok_iff.1 h).symm⟩
    | cons v' rest =>
      rw [List.foldlM_cons] at h
      obtain ⟨c', hc', -⟩ := bind_ok_iff.1 h
      obtain ⟨dir', -, hc'⟩ := bind_ok_iff.1 hc'
      obtain ⟨pkg', hpkg', hc'⟩ := bind_ok_iff.1 hc'
      rw [hpkg] at hpkg'
      cases hpkg'
      obtain ⟨-, hnew', -⟩ := addDir_eq_ok hc'
      refine absurd ?_ (hnew' dir)
      rw [registers_register, if_pos ⟨rfl, rfl⟩]

theorem grown_register (hcheck : checkName pkg = .ok ()) (hnew : ∀ d, ¬ b.Registers pkg sec d)
    (hdescribed : Described pkgs pkg sec dir) :
    Grown pkgs b (b.register pkg sec dir) := by
  constructor
  · intro p s d hd
    rw [registers_register, if_neg]
    · exact hd
    · rintro ⟨rfl, rfl⟩
      exact hnew d hd
  · intro hb
    refine ⟨nodup_insert hb.distinctPackages _ _, ?_, ?_, ?_⟩
    · intro p sections hmem
      rcases mem_of_mem_insert hmem with heq | hmem
      · cases heq
        refine nodup_insert ?_ _ _
        cases hget : get? b.pkgs pkg with
        | none => exact .nil
        | some sections => exact hb.distinctSections _ _ (mem_of_get? hget)
      · exact hb.distinctSections p sections hmem
    · intro p sections hmem
      rcases mem_of_mem_insert hmem with heq | hmem
      · cases heq
        exact hcheck
      · exact hb.checked p sections hmem
    · intro p s d hd
      rw [registers_register] at hd
      split at hd
      · rename_i hsame
        obtain ⟨rfl, rfl⟩ := hsame
        rw [← hd]
        exact hdescribed
      · exact hb.described p s d hd

theorem addSection_spec {key : Text} {sec : String} (hcfg : get? pkgs key = some cfg)
    (hsection : ofString sec ∈ sectionNames)
    (h : addSection cfg sec b = .ok b') : Grown pkgs b b' ∧ b'.Knows cfg sec := by
  rcases addSection_cases h with ⟨hvalues, rfl⟩ |
    ⟨v, dir, pkg, hvalues, hdir, hpkg, hcheck, hnew, rfl⟩
  · exact ⟨.refl _ _, [], hvalues, nofun⟩
  · refine ⟨grown_register hcheck hnew (.intro hcfg hpkg hsection hvalues hdir),
      [v], hvalues, fun w hw => ⟨dir, pkg, ?_, hpkg, ?_⟩⟩
    · rw [List.mem_singleton.1 hw, hdir]
    · rw [registers_register, if_pos ⟨rfl, rfl⟩]

theorem Build.Knows.mono {sec : String} (h : b.Knows cfg sec)
    (hgrown : Grown pkgs b b') : b'.Knows cfg sec := by
  obtain ⟨values, hvalues, hall⟩ := h
  refine ⟨values, hvalues, fun v hv => ?_⟩
  obtain ⟨dir, pkg, hdir, hpkg, hregisters⟩ := hall v hv
  exact ⟨dir, pkg, hdir, hpkg, hgrown.keeps _ _ _ hregisters⟩

theorem Build.Orderly.isName (h : b.Orderly pkgs) (hregisters : b.Registers pkg sec dir) :
    (ofString pkg.display = pkg ∧ Path.IsName pkg.display) ∧
      ofString sec.display = sec ∧ Path.IsName sec.display := by
  constructor
  · obtain ⟨sections, hsections, -⟩ := hregisters
    exact isName_of_checkName (h.checked pkg sections (mem_of_get? hsections))
  · obtain ⟨-, -, hsection, -, -⟩ := h.described pkg sec dir hregisters
    simp only [sectionNames, List.mem_cons, List.not_mem_nil, or_false] at hsection
    rcases hsection with hsection | hsection | hsection
    all_goals
      rw [hsection, display_ofString]
      exact ⟨rfl, by decide⟩

end Registering

/-! ## The steps of a build -/

section Steps

variable {files : Files} {scope : Scope} {pkgs : Packages} {b b' : Build}

theorem packages_addLocaleFile {file : String}
    (h : addLocaleFile files dir b file = .ok b') : b'.pkgs = b.pkgs := by
  unfold addLocaleFile at h
  dsimp only at h
  split at h
  · split at h
    · cases h
    · cases h
    · rw [← pure_ok_iff.1 h]
  · rw [pure_ok_iff.1 h]

theorem packages_addLocale {cfg : Config} (h : addLocale files scope cfg b = .ok b') :
    b'.pkgs = b.pkgs := by
  unfold addLocale at h
  split at h
  · cases h
    rfl
  · obtain ⟨own, -, h⟩ := bind_ok_iff.1 h
    split at h
    · rw [pure_ok_iff.1 h]
    · obtain ⟨dir, -, h⟩ := bind_ok_iff.1 h
      split at h
      · cases h
      · refine foldlM_rel (R := fun b b' : Build => b'.pkgs = b.pkgs) (fun _ => rfl) ?_
          (fun _ _ _ _ hstep => packages_addLocaleFile hstep) h
        intro b₁ b₂ b₃ hfirst hsecond
        rw [hsecond, hfirst]

theorem addTests_spec {key : Text} {cfg : Config} {wanted : Bool} (hcfg : get? pkgs key = some cfg)
    (h : addTests wanted cfg b = .ok b') : Grown pkgs b b' := by
  cases wanted with
  | false =>
    cases h
    exact .refl _ _
  | true => exact (addSection_spec hcfg (by decide) h).1

theorem packages_addLoader (pkg : Text) (cfg : Config) (b : Build) :
    (addLoader pkg cfg b).pkgs = b.pkgs := by
  unfold addLoader
  split
  · split <;> rfl
  · rfl

theorem addPackage_spec (h : addPackage files scope pkgs b pkg = .ok b') :
    Grown pkgs b b' ∧ ∃ cfg, get? pkgs pkg = some cfg ∧ b'.Knows cfg "lib" := by
  unfold addPackage at h
  split at h
  · cases h
  rename_i cfg hcfg
  obtain ⟨b₁, hlib, h⟩ := bind_ok_iff.1 h
  obtain ⟨b₂, hdata, h⟩ := bind_ok_iff.1 h
  obtain ⟨b₃, htests, h⟩ := bind_ok_iff.1 h
  obtain ⟨b₄, hlocale, h⟩ := bind_ok_iff.1 h
  obtain ⟨hgrown₁, hknows⟩ := addSection_spec hcfg (by decide) hlib
  have hgrown₂ : Grown pkgs b₁ b₂ := (addSection_spec hcfg (by decide) hdata).1
  obtain rfl := pure_ok_iff.1 h
  have hgrown₃ : Grown pkgs b₂ b₃ := addTests_spec hcfg htests
  have hgrown₄ : Grown pkgs b₃ b₄ := .of_packages_eq (packages_addLocale hlocale)
  have hgrown₅ : Grown pkgs b₄ (addLoader pkg cfg b₄) := .of_packages_eq (packages_addLoader _ _ _)
  have hlater := hgrown₂.trans (hgrown₃.trans (hgrown₄.trans hgrown₅))
  exact ⟨hgrown₁.trans hlater, cfg, hcfg, hknows.mono hlater⟩

/-- The library section of every package that is added is registered in the end. -/
theorem addPackages_spec (h : used.foldlM (addPackage files scope pkgs) b = .ok b') :
    Grown pkgs b b' ∧ ∀ pkg ∈ used, ∃ cfg, get? pkgs pkg = some cfg ∧ b'.Knows cfg "lib" := by
  induction used generalizing b with
  | nil =>
    rw [pure_ok_iff.1 h]
    exact ⟨.refl _ _, nofun⟩
  | cons pkg used ih =>
    rw [List.foldlM_cons] at h
    obtain ⟨c, hc, h⟩ := bind_ok_iff.1 h
    obtain ⟨hgrown, cfg, hcfg, hknows⟩ := addPackage_spec hc
    obtain ⟨hgrown', hmore⟩ := ih h
    refine ⟨hgrown.trans hgrown', fun p hp => ?_⟩
    rcases List.mem_cons.1 hp with rfl | hp
    · exact ⟨cfg, hcfg, hknows.mono hgrown'⟩
    · exact hmore p hp

theorem packages_takeIcon {key : String} {x y : Config × Build} (h : takeIcon key x = .ok y) :
    y.2.pkgs = x.2.pkgs := by
  rw [takeIcon] at h
  split at h
  · cases h
    rfl
  · obtain ⟨path, -, h⟩ := bind_ok_iff.1 h
    rw [← pure_ok_iff.1 h]

theorem packages_takeIdentifier {cfg : Config} (h : takeIdentifier cfg b = .ok b') :
    b'.pkgs = b.pkgs := by
  unfold takeIdentifier at h
  split at h
  · cases h
    rfl
  · obtain ⟨branch, -, h⟩ := bind_ok_iff.1 h
    rw [← pure_ok_iff.1 h]

theorem packages_takePreferences {cfg : Config} (h : takePreferences cfg b = .ok b') :
    b'.pkgs = b.pkgs := by
  unfold takePreferences at h
  obtain ⟨c, hc, h⟩ := bind_ok_iff.1 h
  rw [← packages_takeIdentifier hc]
  split at h
  · rw [pure_ok_iff.1 h]
  · rw [← pure_ok_iff.1 h]

theorem orderly_empty (pkgs : Packages) : Build.Orderly pkgs {} where
  distinctPackages := .nil
  distinctSections := nofun
  checked := nofun
  described := by
    rintro p s d ⟨sections, hsections, -⟩
    cases hsections

/-- **What a build knows:** every registered directory is described, and the library of every
package that was asked for is registered. -/
theorem build_spec {target : Text} {pkgs' : Packages}
    (h : build files scope pkgs target used = .ok (b, pkgs')) :
    b.Orderly pkgs ∧ ∀ pkg ∈ used, ∃ cfg, get? pkgs pkg = some cfg ∧ b.Knows cfg "lib" := by
  unfold build at h
  split at h
  · cases h
  rename_i cfg hcfg
  obtain ⟨b₁, htests, h⟩ := bind_ok_iff.1 h
  obtain ⟨b₂, hused, h⟩ := bind_ok_iff.1 h
  obtain ⟨b₃, hlibrary, h⟩ := bind_ok_iff.1 h
  obtain ⟨⟨cfg₁, b₄⟩, hicon, h⟩ := bind_ok_iff.1 h
  obtain ⟨⟨cfg₂, b₅⟩, hicon64, h⟩ := bind_ok_iff.1 h
  obtain ⟨b₆, hpreferences, h⟩ := bind_ok_iff.1 h
  cases pure_ok_iff.1 h
  have hgrown₁ : Grown pkgs {} b₁ := addTests_spec hcfg htests
  obtain ⟨hgrown₂, hknows⟩ := addPackages_spec hused
  have hgrown₃ : Grown pkgs b₂ b₃ := by
    unfold addLibrary at hlibrary
    split at hlibrary
    · cases hlibrary
      exact .refl _ _
    · exact (addPackage_spec hlibrary).1
  have hgrown₄ : Grown pkgs b₃ b := by
    refine .of_packages_eq ?_
    rw [packages_takePreferences hpreferences]
    exact (packages_takeIcon hicon64).trans (packages_takeIcon hicon)
  have hlater := hgrown₃.trans hgrown₄
  refine ⟨(hgrown₁.trans (hgrown₂.trans hlater)).orderly (orderly_empty pkgs), ?_⟩
  intro pkg hpkg
  obtain ⟨owner, howner, hlib⟩ := hknows pkg hpkg
  exact ⟨owner, howner, hlib.mono hlater⟩

/-- **Only hosts are registered**, perhaps with a line feed at the end, and each section of one has a
single directory, which a description names. -/
theorem build_registers {target : Text} {pkgs' : Packages}
    (h : build files scope pkgs target used = .ok (b, pkgs')) :
    (keys b.pkgs).Nodup ∧ ∀ pkg sections, (pkg, sections) ∈ b.pkgs →
      (∃ host, IsHostName host ∧ (pkg = host ∨ pkg = host ++ [0x0A])) ∧
        (keys sections).Nodup ∧ ∀ sec dir, (sec, dir) ∈ sections → Described pkgs pkg sec dir := by
  have horderly := (build_spec h).1
  refine ⟨horderly.distinctPackages, fun pkg sections hmem => ⟨?_, ?_, ?_⟩⟩
  · exact checkName_spec (horderly.checked pkg sections hmem)
  · exact horderly.distinctSections pkg sections hmem
  · intro sec dir hsection
    exact horderly.described _ _ _ (horderly.registers_iff.2 ⟨sections, hmem, hsection⟩)

/-- A package that loads itself. -/
def loadingItself (name : Text) : Packages :=
  [(name, [(ofString "name", .text name), (ofString "root_dir", .str "/a"),
    (ofString "lib", .str "lib"), (ofString "loader", .str "lib/loader.js")])]

/-- A package may load itself. -/
theorem build_registers_itself : ∃ b pkgs' sections,
    build {} {} (loadingItself "a") "a" ["a"] = .ok (b, pkgs') ∧
      (ofString "a", sections) ∈ b.pkgs ∧ (keys sections).Nodup ∧
      Described (loadingItself "a") "a" "lib" "/a/lib" := by
  have hbuild : build {} {} (loadingItself "a") "a" ["a"] = .ok (_, _) := rfl
  have hregistered := (build_registers hbuild).2 _ _ List.mem_cons_self
  exact ⟨_, _, _, hbuild, List.mem_cons_self, hregistered.2.1,
    hregistered.2.2 _ _ List.mem_cons_self⟩

/-- A name is registered with the line feed at its end. -/
theorem build_registers_line_feed : ∃ b pkgs',
    build {} {} (loadingItself "a\n") "a\n" ["a\n"] = .ok (b, pkgs') ∧
      ∃ pkg ∈ keys b.pkgs, ¬IsHostName pkg := by
  refine ⟨_, _, rfl, "a\n", List.mem_cons_self, fun h => ?_⟩
  exact absurd (h.2 0x0A (by decide)) (by decide)

end Steps

end AddonBuilder.Package
