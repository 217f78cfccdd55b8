import AddonBuilder.Proofs.Linker.Closure

/-!
# The contents of a manifest

When linking has ended, every module from which it starts and every module that was followed is
done.
-/

namespace AddonBuilder.Linker

open Json Assoc Manifest

variable {m m' : Module} {name : String} {line : Option Nat} {p : Place} {e : Entry}
  {r : Requirement}

section Whole

variable {s : Setting} {scope : Scope} {σ τ : Manifest} {follow : Module → Linking Unit}

/-- The main module had its turn, and steps have followed. -/
theorem exists_turn_of_linkMain (hfollow : Obeys s scope Held follow) {main : Value}
    (hmain : get? s.target "main" = some main) (htop : topModule s main = .ok m)
    (hrun : Runs (linkMain s follow) σ (.ok ()) τ) :
    ∃ ρ, Runs (follow m) σ (.ok ()) ρ ∧ Steps s scope ρ τ := by
  rw [linkMain, hmain] at hrun
  obtain ⟨m', _, hperform, hrun⟩ := runs_bind_ok_iff.1 hrun
  obtain ⟨htop', rfl⟩ := runs_perform_ok_iff.1 hperform
  cases htop.symm.trans htop'
  obtain ⟨_, ρ, hfirst, hrest⟩ := runs_bind_ok_iff.1 hrun
  exact ⟨ρ, hfirst, ((plan_afterMain m.path).runs hfollow hrest).1⟩

/-- Linking without tests ends with every module of the program done. -/
theorem link_spec {depth : Nat} (htests : scope.tests = false)
    (hlink : link s scope depth = (.ok (), σ)) :
    Sound s scope σ ∧ ∀ m, Met s scope m → Done s σ m := by
  have hfollow := obeys_follow s scope depth
  have hdone : Finishes s {} σ := (plan_linkAll s scope {}).finishes hfollow
    (fun _ hm _ _ hrun => (follow_finishes depth hm hrun).2) hlink
  have hrun : Runs (linkAll s scope (Linker.follow s depth)) {} (.ok ()) σ := hlink
  obtain ⟨_, ρ, hmain, hrun⟩ := runs_bind_ok_iff.1 hrun
  simp only [htests, Bool.false_eq_true, if_false] at hrun
  refine ⟨(link_steps hlink).invariant (fun _ _ => Sound.step htests) (.empty s scope), ?_⟩
  intro m hm
  induction hm with
  | start hstart =>
    have hmet := Met.start hstart
    cases hstart with
    | main hvalue htop =>
      obtain ⟨ρ', hturn, hsteps⟩ := exists_turn_of_linkMain hfollow hvalue htop hmain
      have hmore := ((plan_linkExtras s scope ρ).runs hfollow hrun).1
      exact (follow_finishes depth hmet hturn).1.mono (hsteps.grows.trans hmore.grows)
    | runner h => simp [htests] at h
    | test h => simp [htests] at h
    | extra hx hm =>
      obtain ⟨ρ₁, ρ₂, hturn, hsteps⟩ :=
        Plan.exists_turn_of_forM (fun x hx _ => plan_linkExtra hx) hfollow hrun hx
      obtain ⟨m', _, hperform, hturn⟩ := runs_bind_ok_iff.1 hturn
      obtain ⟨hm', rfl⟩ := runs_perform_ok_iff.1 hperform
      cases hm.symm.trans hm'
      exact (follow_finishes depth hmet hturn).1.mono hsteps.grows
  | asked _ hasks hfree hmeans ih =>
    rcases ih.settled _ _ hasks with ⟨r, -, -, hfollowed⟩ | hnone
    · exact (hdone _ (hfollowed _ hfree hmeans)).resolve_left List.not_mem_nil
    · cases hnone with
      | ignored _ hmeans' _ => cases hmeans.unique hmeans'

end Whole

/-- What a climb ends with does not depend on how its failure is told. -/
theorem climb_ok {bad bad' : String → Fault} {base steps result : List String}
    (h : climb bad base steps = .ok result) : climb bad' base steps = .ok result := by
  induction steps generalizing base with
  | nil => cases h
  | cons step rest ih =>
    unfold climb at h ⊢
    grind

theorem relativeName_ok {inside : String} (hname : m.name = m'.name)
    (h : relativeName m name = .ok inside) : relativeName m' name = .ok inside := by
  unfold relativeName at h ⊢
  dsimp only at h ⊢
  obtain ⟨way, hway, htext⟩ := bind_ok_iff.1 h
  rw [hname] at hway
  exact bind_ok_iff.2 ⟨way, climb_ok hway, htext⟩

/-- Two modules of one place and one file mean the same by a name. -/
theorem Means.congr {s : Setting}
    {found : Option Module} (hplace : m.toPlace = m'.toPlace) (hfile : m.file = m'.file)
    (h : Means s m name line found) : Means s m' name line found := by
  obtain ⟨p, file, page⟩ := m
  obtain ⟨p', file', page'⟩ := m'
  obtain rfl : p = p' := hplace
  obtain rfl : file = file' := hfile
  obtain ⟨trail, h⟩ := h
  refine ⟨trail, ?_⟩
  have hname : ¬ name.isEmpty := by
    intro hempty
    rw [resolve, if_pos hempty] at h
    cases h
  rw [resolve, if_neg hname, runs_bind_ok_iff] at h ⊢
  obtain ⟨sections, ρ, hsections, h⟩ := h
  refine ⟨sections, ρ, hsections, ?_⟩
  have hwarn : ∀ new, warnMoved s ⟨p, file, page⟩ line name new =
      warnMoved s ⟨p, file, page'⟩ line name new := fun _ => rfl
  dsimp only at h ⊢
  -- Only a failure to climb names the whole module.
  by_cases hrel : isRelative name
  · rw [if_pos hrel, runs_bind_ok_iff] at h ⊢
    obtain ⟨inside, ρ', hlift, h⟩ := h
    obtain ⟨hinside, hρ'⟩ := runs_lift_iff.1 hlift
    have hinside' : relativeName ⟨p, file, page'⟩ name = .ok inside :=
      relativeName_ok (by rfl) hinside.symm
    exact ⟨inside, ρ', runs_lift_iff.2 ⟨hinside'.symm, hρ'⟩, h⟩
  · rw [if_neg hrel] at h ⊢
    simp only [hwarn] at h
    exact h

theorem Asks.congr {s : Setting}
    (hfile : m.file = m'.file) (h : Asks s m name line) : Asks s m' name line := by
  obtain ⟨required, hasked, hline⟩ := h
  exact ⟨required, hfile ▸ hasked, hline⟩

theorem Asks.unique {s : Setting} {line' : Option Nat}
    (h : Asks s m name line) (h' : Asks s m name line') : line = line' := by
  obtain ⟨required, hasked, hline⟩ := h
  obtain ⟨required', hasked', hline'⟩ := h'
  rw [hasked] at hasked'
  cases hasked'
  rw [hline] at hline'
  exact Option.some.inj hline'

theorem StandsFor.congr {s : Setting}
    {r : Option Requirement} (hplace : m.toPlace = m'.toPlace) (hfile : m.file = m'.file)
    (h : StandsFor s m name line r) : StandsFor s m' name line r := by
  cases h with
  | provided hname => exact .provided hname
  | found hfree hmeans => exact .found hfree (hmeans.congr hplace hfile)
  | missing hfree hmeans hsection hending =>
    exact .missing hfree (hmeans.congr hplace hfile) (hplace ▸ hsection) hending
  | ignored hfree hmeans h => exact .ignored hfree (hmeans.congr hplace hfile) (hplace ▸ h)

/-- A place stands for one file throughout a program. -/
def OneFile (s : Setting) (scope : Scope) : Prop :=
  ∀ m m', Met s scope m → Met s scope m' → m.toPlace = m'.toPlace → m.file = m'.file

section Places

variable {s : Setting} {scope : Scope} {σ : Manifest} (hsound : Sound s scope σ)
  (hdone : ∀ m, Met s scope m → Done s σ m) (hfile : OneFile s scope)

include hsound hdone

theorem holds_iff_met (p : Place) : σ.Holds p ↔ ∃ m, Met s scope m ∧ m.toPlace = p := by
  constructor
  · exact hsound.holds p
  · rintro ⟨m, hm, rfl⟩
    exact (hdone m hm).holds

theorem exists_of_mem_entries (hmem : (p, e) ∈ σ.entries) :
    ∃ m, Met s scope m ∧ m.toPlace = p ∧ σ.entry p = e ∧ e.source.isSome := by
  have hget : get? σ.entries p = some e := (get?_eq_some_iff hsound.distinctPlaces p e).2 hmem
  have hentry : σ.entry p = e := by rw [entry, hget]; rfl
  have hholds : σ.Holds p := by rw [Holds, contains, hget]; rfl
  obtain ⟨m, hm, hplace⟩ := hsound.holds p hholds
  refine ⟨m, hm, hplace, hentry, ?_⟩
  rw [← hentry, ← hplace]
  exact (hdone m hm).source

include hfile in
theorem source_of_met (hm : Met s scope m) :
    ∃ h, (σ.entry m.toPlace).source = some h ∧ h.file = m.file := by
  obtain ⟨h, hsource⟩ := Option.isSome_iff_exists.1 (hdone m hm).source
  obtain ⟨m', hm', hplace, hm'file⟩ := hsound.source _ h hsource
  exact ⟨h, hsource, hm'file.trans (hfile m' m hm' hm hplace)⟩

omit hdone in
include hfile in
theorem standsFor_of_required
    (hm : Met s scope m) (hr : get? (σ.entry m.toPlace).requirements name = some r) :
    ∃ line, Asks s m name line ∧ StandsFor s m name line (some r) := by
  obtain ⟨m', line, hm', hplace, hasks, hstands⟩ := hsound.required _ _ _ hr
  have hfile' := hfile m' m hm' hm hplace
  exact ⟨line, hasks.congr hfile', hstands.congr hplace hfile'⟩

include hfile in
theorem required_of_asks (hm : Met s scope m) (hasks : Asks s m name line) :
    StandsFor s m name line (get? (σ.entry m.toPlace).requirements name) := by
  cases hr : get? (σ.entry m.toPlace).requirements name with
  | some r =>
    obtain ⟨line', hasks', hstands⟩ := standsFor_of_required hsound hfile hm hr
    rwa [hasks.unique hasks']
  | none =>
    rcases (hdone m hm).settled name line hasks with ⟨r, -, hset, -⟩ | hnone
    · rw [contains, hr] at hset
      cases hset
    · exact hnone

theorem holds_of_required {q : Place}
    (hr : get? (σ.entry p).requirements name = some (.place q)) : σ.Holds q := by
  obtain ⟨m, line, hm, -, hasks, hstands⟩ := hsound.required _ _ _ hr
  cases hstands with
  | found hfree hmeans => exact (hdone _ (.asked hm hasks hfree hmeans)).holds

end Places

/-- How a requirement is written in a manifest that is shipped. -/
inductive WrittenAs (σ : Manifest) (withLibrary : Bool) (members : Members) (name : Text) :
    Value → Prop
  /-- By the path of another member. -/
  | member {path : Text} (hpath : contains members path = true) :
      WrittenAs σ withLibrary members name (.text path)
  /-- By the path of a module of the library, which is not shipped. -/
  | library {p : Place} (hwithout : withLibrary = false) (hp : σ.Holds p)
      (hpkg : p.pkg = Package.libraryName) :
      WrittenAs σ withLibrary members name (.text (Text.ofString p.path))
  /-- By its name. -/
  | name : WrittenAs σ withLibrary members name (.text name)

section Shipping

variable {s : Setting} {scope : Scope} {σ : Manifest} (hsound : Sound s scope σ)
  (hdone : ∀ m, Met s scope m → Done s σ m)

theorem row_eq_ok (hsource : e.source.isSome) :
    ∃ members, row (p, e) = .ok (Text.ofString p.path, .object members) ∧
      get? members (Text.ofString "requirements") =
        some (.object (e.requirements.map fun (n, r) =>
          (Text.ofString n, Value.str (requirementText r)))) := by
  obtain ⟨source, hsource⟩ := Option.isSome_iff_exists.1 hsource
  unfold row entryValue
  simp only [hsource]
  exact ⟨_, rfl, rfl⟩

include hsound hdone

/-- A requirement is written as one of these if the modules that are shipped are members. -/
theorem writtenAs_of_required {withLibrary : Bool} {members : Assoc Text Value}
    (hmembers : ∀ q, σ.Holds q → counts withLibrary q →
      contains members (Text.ofString q.path)) {n : String}
    (hget : get? (σ.entry p).requirements n = some r) :
    WrittenAs σ withLibrary members (Text.ofString n) (Value.str (requirementText r)) := by
  cases r with
  | name n' =>
    obtain ⟨m', line, -, -, -, hstands⟩ := hsound.required _ _ _ hget
    cases hstands <;> exact .name
  | place q =>
    have hq : σ.Holds q := holds_of_required hsound hdone hget
    by_cases hcounts : counts withLibrary q
    · exact .member (hmembers q hq hcounts)
    · simp only [counts, Bool.or_eq_true, bne_iff_ne, not_or, Bool.not_eq_true,
        Decidable.not_not] at hcounts
      exact .library hcounts.1 hq hcounts.2

/-- **Every requirement of a shipped manifest** is the path of a member, of a module of the library
that is not shipped, or the name that was asked for. -/
theorem members_spec (withLibrary : Bool) :
    ∃ members, σ.members withLibrary = .ok members ∧
      ∀ path value, get? members path = some value →
        ∃ fields required, value = .object fields ∧
          get? fields (Text.ofString "requirements") = some (.object required) ∧
          ∀ name written, (name, written) ∈ required →
            WrittenAs σ withLibrary members name written := by
  have hrow : ∀ x ∈ σ.entries.filter (fun x => Manifest.counts withLibrary x.1),
      ∃ row, Manifest.row x = .ok row := by
    rintro ⟨p, e⟩ hx
    obtain ⟨-, -, -, -, hsource⟩ := exists_of_mem_entries hsound hdone (List.mem_filter.1 hx).1
    obtain ⟨fields, hfields, -⟩ := row_eq_ok (p := p) hsource
    exact ⟨_, hfields⟩
  obtain ⟨rows, hrows, hfrom, hto⟩ := exists_mapM_eq_ok hrow
  refine ⟨ofList rows, bind_ok_iff.2 ⟨rows, hrows, rfl⟩, ?_⟩
  intro path value hvalue
  rw [get?_ofList] at hvalue
  obtain ⟨⟨p, e⟩, hpe, hrowpe⟩ := hfrom _ (List.mem_reverse.1 (mem_of_get? hvalue))
  obtain ⟨m, hm, hplace, hentry, hsource⟩ :=
    exists_of_mem_entries hsound hdone (List.mem_filter.1 hpe).1
  obtain ⟨fields, hfields, hrequired⟩ := row_eq_ok (p := p) hsource
  rw [hrowpe] at hfields
  cases hfields
  refine ⟨fields, _, rfl, hrequired, ?_⟩
  intro name written hwritten
  obtain ⟨⟨n, r⟩, hnr, heq⟩ := List.mem_map.1 hwritten
  cases heq
  have hget : get? (σ.entry p).requirements n = some r := by
    rw [get?_eq_some_iff (hsound.distinctNames p), hentry]
    exact hnr
  refine writtenAs_of_required hsound hdone ?_ hget
  -- A module that is shipped has a row, and its row gives the path.
  intro q hq hcounts
  obtain ⟨e', he'⟩ := Option.isSome_iff_exists.1 hq
  obtain ⟨row, hrow, hrowq⟩ := hto (q, e') (List.mem_filter.2 ⟨mem_of_get? he', hcounts⟩)
  obtain ⟨_, _, hpath⟩ := bind_ok_iff.1 hrowq
  cases hpath
  exact contains_ofList.2 (List.mem_map.2 ⟨_, hrow, rfl⟩)

end Shipping

/-! ## Programs that can be evaluated -/

/-- Whether places stand for one file can be seen from any closed list of modules. -/
theorem OneFile.of_closed {s : Setting} {scope : Scope} (ms : List Module)
    (htests : scope.tests = false) (hstarts : ∀ m ∈ starts s scope, m ∈ ms) (hclosed : Closed s ms)
    (hfile : ∀ m ∈ ms, ∀ m' ∈ ms, m.toPlace = m'.toPlace → m.file = m'.file) : OneFile s scope := by
  intro m m' hm hm'
  exact hfile m (hm.mem_of_closed (fun x hx => hstarts x (mem_starts htests hx)) hclosed)
    m' (hm'.mem_of_closed (fun x hx => hstarts x (mem_starts htests hx)) hclosed)

def loneConfig : Package.Config :=
  [("name", Value.str "lone"), ("root_dir", Value.str "/"), ("lib", .array [Value.str "lib"]),
    ("main", Value.str "main"), ("dependencies", .array [])]

def source (l : Location) (text : String) : Location × Node :=
  (l, .file (Codec.utf8OfString text))

/-- One package, with the library directory `lib`. -/
def lone (tree : FileTree) : Setting where
  files := { tree := (["lib"], .dir) :: tree }
  target := loneConfig
  pkgs := [("lone", loneConfig)]
  available := []

theorem ok_of_isOk {r : Except Stop Unit × Manifest} (h : r.1.isOk) : r = (.ok (), r.2) := by
  obtain ⟨e | a, σ⟩ := r
  · cases h
  · rfl

/-! ## The theorem -/

/-- **What a manifest holds.**  Linking without tests ends with the modules of the program and no
others, each with its file.  A name that a module asks for is entered as what stands for it, and no
other name is entered; a module that stands for a name has an entry of its own.  So each requirement
that is shipped can be followed within what is shipped, leads into the library that is not shipped,
or is a name. -/
theorem link_closure (s : Setting) (scope : Scope) (depth : Nat) (σ : Manifest)
    (htests : scope.tests = false) (hlink : link s scope depth = (.ok (), σ))
    (hfile : OneFile s scope) :
    (∀ p, σ.Holds p ↔ ∃ m, Met s scope m ∧ m.toPlace = p) ∧
    (∀ m, Met s scope m → (∃ h, (σ.entry m.toPlace).source = some h ∧ h.file = m.file) ∧
      ∀ name,
        (∀ line, Asks s m name line →
          StandsFor s m name line (Assoc.get? (σ.entry m.toPlace).requirements name)) ∧
        ((∀ line, ¬ Asks s m name line) →
          Assoc.get? (σ.entry m.toPlace).requirements name = none)) ∧
    (∀ p name q, Assoc.get? (σ.entry p).requirements name = some (.place q) → σ.Holds q) ∧
    ∀ withLibrary, ∃ members, σ.members withLibrary = .ok members ∧
      ∀ path value, Assoc.get? members path = some value →
        ∃ fields required, value = .object fields ∧
          Assoc.get? fields (Text.ofString "requirements") = some (.object required) ∧
          ∀ name written, (name, written) ∈ required →
            WrittenAs σ withLibrary members name written := by
  obtain ⟨hsound, hdone⟩ := link_spec htests hlink
  refine ⟨holds_iff_met hsound hdone, ?_, fun p name q => holds_of_required hsound hdone,
    members_spec hsound hdone⟩
  intro m hm
  refine ⟨source_of_met hsound hdone hfile hm, fun name => ⟨?_, ?_⟩⟩
  · intro line hasks
    exact required_of_asks hsound hdone hfile hm hasks
  · intro hnot
    cases hr : Assoc.get? (σ.entry m.toPlace).requirements name with
    | none => rfl
    | some r =>
      obtain ⟨line, hasks, -⟩ := standsFor_of_required hsound hfile hm hr
      exact absurd hasks (hnot line)

/-- Two modules that ask for each other, one of them for the browser and one for nothing. -/
def circle : Setting :=
  lone [source ["lib", "main.js"] "require('./a');require('missing')",
    source ["lib", "a.js"] "require('chrome');require('./main')"]

def circleModules : List Module :=
  starts circle {} ++ [⟨⟨"lone", "lib", "a"⟩, "/lib/a.js", none⟩]

theorem closed_circleModules : Closed circle circleModules := by decide +kernel

/-- Two modules that ask for each other are both held. -/
theorem link_closure_circle :
    link circle {} 3 = (.ok (), (link circle {} 3).2) ∧ OneFile circle {} ∧
    ∀ p, (link circle {} 3).2.Holds p ↔ ∃ m, Met circle {} m ∧ m.toPlace = p := by
  have hlink : link circle {} 3 = (.ok (), (link circle {} 3).2) := by
    apply ok_of_isOk
    decide +kernel
  have hfile : OneFile circle {} :=
    .of_closed circleModules rfl (fun _ => List.mem_append_left _) closed_circleModules
      (by decide +kernel)
  exact ⟨hlink, hfile, (link_closure circle {} 3 _ rfl hlink hfile).1⟩

/-- A test that asks for a module which is missing and for the browser, whose name a file has. -/
def visitor : Setting :=
  lone [source ["lib", "main.js"] "", source ["lib", "chrome.js"] "",
    source ["lib", "test.js"] "require('missing');require('chrome')"]

/-- Names are not always entered: a test does without a missing one.  And a module that a name
leads to is not always linked: the browser takes precedence over it. -/
theorem link_passes_over :
    ∃ scope m other σ, scope.tests = false ∧ link visitor scope 3 = (.ok (), σ) ∧
      OneFile visitor scope ∧ Met visitor scope m ∧
      (Asks visitor m "missing" (some 1) ∧ isProvided "missing" = false ∧
        Text.endsWith "missing" ".jsm" = false ∧ Means visitor m "missing" (some 1) none ∧
        Assoc.get? (σ.entry m.toPlace).requirements "missing" = none) ∧
      Asks visitor m "chrome" (some 1) ∧ Means visitor m "chrome" (some 1) (some other) ∧
        ¬ σ.Holds other.toPlace := by
  let scope : Scope := { extra := [⟨"lone", "tests", "test", "/lib/test.js"⟩] }
  let m : Module := ⟨⟨"lone", "tests", "test"⟩, "/lib/test.js", none⟩
  let other : Module := ⟨⟨"lone", "lib", "chrome"⟩, "/lib/chrome.js", none⟩
  obtain ⟨hlink, hnone, hother⟩ : (link visitor scope 3).1.isOk = true ∧
      Assoc.get? ((link visitor scope 3).2.entry m.toPlace).requirements "missing" = none ∧
      ¬ Assoc.contains (link visitor scope 3).2.entries other.toPlace = true := by
    decide +kernel
  have hfile : OneFile visitor scope :=
    .of_closed (starts visitor scope) rfl (fun _ h => h) (by decide +kernel) (by decide)
  have hasked : asked? visitor m.file = some [("missing", some 1), ("chrome", some 1)] := by
    decide
  exact ⟨scope, m, other, _, rfl, ok_of_isOk hlink, hfile,
    .start (.extra (List.mem_singleton.2 rfl) rfl),
    ⟨⟨_, hasked, rfl⟩, by decide, by decide, means_iff.2 (by decide), hnone⟩,
    ⟨_, hasked, rfl⟩, means_iff.2 (by decide), hother⟩

end AddonBuilder.Linker
