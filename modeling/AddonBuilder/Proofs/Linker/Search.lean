import AddonBuilder.Proofs.Linker.Program
import AddonBuilder.Proofs.Outcome
import Mathlib.Data.List.TakeWhile

/-!
# Where a search ends

A search that ends with a module has found it in a directory of a package (`FoundIn`), or as the
main module of a package (`MainOf`).
-/

namespace AddonBuilder.Linker

open Json List Package Assoc Path
open Package (Config)

variable {sections : List String} {name : String} {pkg : Text} {α : Type} {cfg : Config}
  {user : Module} {line : Option Nat}

/-- The directories of a section of a package, none if they cannot be told. -/
def dirsOf (cfg : Config) (sec : String) : List Text :=
  match get? cfg sec with
  | none => []
  | some v => ((asElements v >>= fun l => l.mapM asText).toOption).getD []

/-- A module that was found in a directory of a package. -/
inductive FoundIn (s : Setting) : Module → Prop
  | intro {pkg packageName dir : Text} {cfg : Config} {root sec name : String}
      {documentation : Option String} (hcfg : get? s.pkgs pkg = some cfg)
      (hroot : rootDir cfg = .ok root)
      (hname : Package.name cfg = .ok packageName) (hsection : sec ∈ ["tests", "lib"])
      (hdir : dir ∈ dirsOf cfg sec)
      (hfile : s.files.contains (joinAll root [dir.display, (fileName name).1]) = true)
      (hpage : documentation = none ∨
        documentation = some (joinAll root ["docs", (fileName name).2 ++ ".md"])) :
      FoundIn s ⟨⟨packageName.display, sec, name⟩,
        joinAll root [dir.display, (fileName name).1], documentation⟩

/-- The file of a section: it lies in the first directory that has a file of this name. -/
def fileIn? (s : Setting) (cfg : Config) (root sec file : String) : Option String :=
  ((dirsOf cfg sec).map fun dir =>
    joinAll root [dir.display, file]).find? s.files.contains

/-- A module that was found by its name in one of some sections of a package. -/
structure Located (s : Setting) (sections : List String) (name : String) (pkg : Text)
    (m : Module) : Prop where
  name_eq : m.name = name
  visible : m.sec ∈ sections
  owned : ∃ cfg root owner, get? s.pkgs pkg = some cfg ∧
    Package.rootDir cfg = .ok root ∧ Package.name cfg = .ok owner ∧
    m.pkg = owner.display ∧ fileIn? s cfg root m.sec (fileName name).1 = some m.file ∧
    (m.documentation = none ∨
      m.documentation = some (joinAll root ["docs", (fileName name).2 ++ ".md"]))

theorem Located.foundIn {s : Setting} {m : Module} (h : Located s sections name pkg m)
    (hsections : ∀ x ∈ sections, x ∈ ["tests", "lib"]) : FoundIn s m := by
  obtain ⟨rfl, hvisible, cfg, root, owner, hcfg, hroot, hname, hpkg, hfile, hpage⟩ := h
  obtain ⟨⟨pkg', sec, name⟩, file, documentation⟩ := m
  dsimp only at *
  obtain ⟨dir, hdir, rfl⟩ := mem_map.1 (mem_of_find?_eq_some hfile)
  obtain rfl : pkg' = owner.display := hpkg
  exact .intro hcfg hroot hname (hsections _ hvisible) hdir (find?_some hfile) hpage

/-- The module is the main module of a package. -/
inductive MainOf (s : Setting) : Module → Prop
  | intro {pkg packageName mainName : Text} {cfg : Config} {main : Value}
      {root file name : String} (hcfg : get? s.pkgs pkg = some cfg)
      (hmain : given? cfg "main" = some main)
      (hroot : rootDir cfg = .ok root) (htext : asText main = .ok mainName)
      (hfile : file ∈ mainFiles root mainName.display none)
      (hlibrary : nameInLibrary s.files cfg file = .ok name)
      (hname : Package.name cfg = .ok packageName) :
      MainOf s ⟨⟨packageName.display, "lib", name⟩, file, none⟩

def directNames (name : String) : List String :=
  [name, Text.joinStrings "/" (names name).tail] ++ (get? relocated (formerName name)).toList

/-- Where a name can lead, and from which sections it may. -/
def Leads (s : Setting) (user : Module) (name : String) (m : Module) : Prop :=
  ∃ sections, visibleSections user = .ok sections ∧
    ((isRelative name = true ∧ ∃ inside, relativeName user name = .ok inside ∧
        Located s sections inside (Text.ofString user.pkg) m) ∨
      isRelative name = false ∧
        (MainOf s m ∨ ∃ n ∈ directNames name, ∃ owner, Located s sections n owner m))

/-! ## What can be wrong -/

/-- A fault of the linker itself, and not one of a broken package. -/
inductive InTerms : Fault → Prop
  | notFound (n : NotFound) : InTerms (.notFound n)
  | badName (what name : String) (user : Module) : InTerms (.badName what name user)
  | badSection (sec : String) : InTerms (.badSection sec)
  | unreachable (file pkg dir : String) : InTerms (.unreachable file pkg dir)
  | chrome : InTerms .chrome

/-- The directory of a package's library in which its main module lies. -/
def mainLibrary (cfg : Config) : Except Package.Fault Text := do
  match ← Package.asElements (← Package.field cfg "lib") with
  | [] => .error (.defect .index)
  | first :: _ => Package.asText first

/-- A description that cannot be used: a member is missing or of the wrong kind.  The main module
stands apart, since that of the target is read even if it does not count as given. -/
inductive Unfit (cfg : Config) (main : Option Value) : Package.Fault → Prop
  | root {f : Package.Fault} (h : Package.rootDir cfg = .error f) : Unfit cfg main f
  | name {f : Package.Fault} (h : Package.name cfg = .error f) : Unfit cfg main f
  | dirs {f : Package.Fault} {sec : String} {v : Value}
      (hsection : sec ∈ ["tests", "lib"]) (hv : get? cfg sec = some v)
      (h : (Package.asElements v >>= fun l => l.mapM Package.asText) = .error f) :
      Unfit cfg main f
  | dependencies {f : Package.Fault} (h : Package.listedAt cfg "dependencies" = .error f) :
      Unfit cfg main f
  | main {f : Package.Fault} {v : Value} (hv : main = some v) (h : Package.asText v = .error f) :
      Unfit cfg main f
  | library {f : Package.Fault} (hmain : main.isSome = true) (h : mainLibrary cfg = .error f) :
      Unfit cfg main f

/-- A package in which the modules of a package look for others. -/
inductive OnPath (s : Setting) (pkg : Text) : Text → Prop
  | own : OnPath s pkg pkg
  | listed {cfg : Config} {names : List Text} {n : Text} (hcfg : get? s.pkgs pkg = some cfg)
      (hnames : listedAt cfg "dependencies" = .ok names) (hn : n ∈ names) :
      OnPath s pkg n
  | atHand {n : Text} (hn : n ∈ s.available) : OnPath s pkg n

/-- Why the search for a name can fail. -/
inductive Trouble (s : Setting) (user : Module) (name : String) (line : Option Nat) :
    Fault → Prop
  | terms {e : Fault} (h : InTerms e) : Trouble s user name line e
  | unfit {f : Package.Fault} {key : Text} {cfg : Config} (hcfg : get? s.pkgs key = some cfg)
      (h : Unfit cfg (Package.given? cfg "main") f) : Trouble s user name line (.pkg f)
  | unknown {n : Text} (hn : OnPath s (Text.ofString user.pkg) n)
      (h : get? s.pkgs n = none) : Trouble s user name line (defect .key)
  | dots (hrel : isRelative name = true) (hdots : ∀ step ∈ names name, step = "." ∨ step = "..") :
      Trouble s user name line (defect .index)
  | moved {new : String} (hrel : isRelative name = false) (hline : line = none)
      (hmoved : get? relocated (formerName name) = some new)
      (hwarn : contains s.target "ignore-deprecated-path" = false) :
      Trouble s user name line (defect .kind)

/-! ## Climbing -/

/-- How many directories a relative name goes up. -/
def ups (steps : List String) : Nat :=
  (steps.takeWhile fun n => n = "." || n = "..").count ".."

/-- The names a relative name goes down. -/
def downs (steps : List String) : List String := steps.dropWhile fun n => n = "." || n = ".."

/-- The way to what a relative name asks for, from the directory of its user. -/
def way (base steps : List String) : List String :=
  base.take (base.length - ups steps) ++ downs steps

theorem climb_eq (bad : String → Fault) (base steps : List String) :
    climb bad base steps =
      if base.length < ups steps then .error (bad "too many ..")
      else if downs steps = [] then .error (defect .index)
      else .ok (way base steps) := by
  induction steps generalizing base with
  | nil => simp [climb, ups, downs]
  | cons step rest ih =>
    unfold climb
    by_cases hdot : step = "."
    · have hups : ups (step :: rest) = ups rest := by simp [ups, hdot]
      have hdowns : downs (step :: rest) = downs rest := by simp [downs, hdot]
      rw [if_pos hdot, ih, way, way, hups, hdowns]
    by_cases hdots : step = ".."
    · have hups : ups (step :: rest) = ups rest + 1 := by simp [ups, hdots]
      have hdowns : downs (step :: rest) = downs rest := by simp [downs, hdots]
      rw [if_neg hdot, if_pos hdots, way, hups, hdowns]
      cases base with
      | nil => simp
      | cons first base =>
        have hshort : (first :: base).dropLast.length = base.length := by simp
        have htake : (first :: base).dropLast.take (base.length - ups rest) =
            (first :: base).take (base.length - ups rest) := by
          rw [dropLast_eq_take, take_take]
          congr 1
          simp
        dsimp only
        rw [ih, way, hshort, htake, length_cons, Nat.add_sub_add_right]
        simp only [Nat.add_lt_add_iff_right]
    · have hups : ups (step :: rest) = 0 := by simp [ups, hdot, hdots]
      have hdowns : downs (step :: rest) = step :: rest := by simp [downs, hdot, hdots]
      simp [hdot, hdots, way, hups, hdowns]

/-- A climb goes up along the names of the user, and then down along those of the name. -/
theorem climb_spec {bad : String → Fault} {base steps found : List String}
    (h : climb bad base steps = .ok found) : found = way base steps ∧ downs steps ≠ [] := by
  rw [climb_eq] at h
  split at h
  · cases h
  · split at h
    · cases h
    · cases h
      exact ⟨rfl, ‹_›⟩

/-! ## What a search gives -/

section Results

variable {β : Type} {P : α → Prop} {E : Fault → Prop}

/-- A search gives a result of one kind, or a fault of another. -/
def Gives (x : Search α) (P : α → Prop) (E : Fault → Prop) : Prop :=
  ∀ t r t', Runs x t r t' → (∀ a, r = .ok a → P a) ∧ ∀ e, r = .error e → E e

theorem gives_of_run {x : Search α} {r : Trail → Except Fault α}
    {next : Trail → Trail} (hx : ∀ t, x.run.run t = (r t, next t))
    (hok : ∀ t a, r t = .ok a → P a) (herror : ∀ t e, r t = .error e → E e) : Gives x P E := by
  intro t r' t' hrun
  obtain ⟨rfl, -⟩ := (runs_iff_of_run (hx t)).1 hrun
  exact ⟨hok t, herror t⟩

theorem gives_pure {a : α} (h : P a) : Gives (pure a) P E :=
  gives_of_run (fun _ => rfl) (fun _ _ ha => Except.ok.inj ha ▸ h) (fun _ _ he => by cases he)

theorem gives_throw {e : Fault} (h : E e) : Gives (throw e) P E :=
  gives_of_run (fun _ => rfl) (fun _ _ ha => by cases ha) (fun _ _ he => Except.error.inj he ▸ h)

theorem gives_modify (f : Trail → Trail) : Gives (modify f) (fun _ => True) E :=
  gives_of_run (fun _ => rfl) (fun _ _ _ => trivial) (fun _ _ he => by cases he)

theorem gives_lift {x : Except Fault α} (hx : ∀ e, x = .error e → E e) :
    Gives (liftM x) (fun a => x = .ok a) E :=
  gives_of_run (fun _ => rfl) (fun _ _ ha => ha) (fun _ => hx)

theorem gives_liftPackage {x : Except Package.Fault α}
    (hx : ∀ f, x = .error f → E (.pkg f)) : Gives (liftPackage x) (fun a => x = .ok a) E := by
  cases x with
  | ok a => exact gives_pure rfl
  | error f => exact gives_throw (hx f rfl)

theorem Gives.bind {Q : β → Prop} {x : Search α} {f : α → Search β} (hx : Gives x P E)
    (hf : ∀ a, P a → Gives (f a) Q E) : Gives (x >>= f) Q E := by
  intro t r t' hrun
  rcases runs_bind_iff.1 hrun with ⟨a, u, hfirst, hrest⟩ | ⟨e, rfl, hfirst⟩
  · exact hf a ((hx _ _ _ hfirst).1 a rfl) _ _ _ hrest
  · refine ⟨fun _ ha => (by cases ha), fun e' he => ?_⟩
    cases he
    exact (hx _ _ _ hfirst).2 e rfl

theorem Gives.mono {Q : α → Prop} {x : Search α} (hx : Gives x P E) (h : ∀ a, P a → Q a) :
    Gives x Q E :=
  fun t r t' hrun => ⟨fun a ha => h a ((hx t r t' hrun).1 a ha), (hx t r t' hrun).2⟩

/-- What is found first is found for an element, and for none before it. -/
theorem gives_firstFound {look : α → Search (Option β)} {R : α → Option β → Prop} {l : List α}
    (hlook : ∀ a ∈ l, Gives (look a) (R a) E) :
    Gives (firstFound look l) (fun found => ∀ b ∈ found, ∃ before a after,
      l = before ++ a :: after ∧ (∀ c ∈ before, R c none) ∧ R a (some b)) E := by
  induction l with
  | nil => exact gives_pure fun b hb => by cases hb
  | cons a l ih =>
    refine (hlook a mem_cons_self).bind fun found hfound => ?_
    cases found with
    | some b =>
      refine gives_pure fun b' hb => ?_
      cases hb
      exact ⟨[], a, l, rfl, forall_mem_nil _, hfound⟩
    | none =>
      refine (ih fun c hc => hlook c (mem_cons_of_mem _ hc)).mono fun rest hrest b hb => ?_
      grind

end Results

section Searches

variable {s : Setting} {m : Module} {E : Fault → Prop} {e : Fault} {file : String}

/-- The name of a file in the library is missed because it lies outside, or because a package that
has a main module cannot be used. -/
theorem nameInLibrary_error {files : Files} {main : Option Value} (hmain : main.isSome)
    (h : nameInLibrary files cfg file = .error e) :
    InTerms e ∨ ∃ f, e = .pkg f ∧ Unfit cfg main f := by
  unfold nameInLibrary at h
  rcases bind_eq_error_iff.1 h with h | ⟨lib, hlib, h⟩
  · obtain ⟨f, hf, rfl⟩ := mapError_eq_error_iff.1 h
    exact .inr ⟨f, rfl, .library hmain (by simp [mainLibrary, hf, bind, Except.bind])⟩
  replace hlib := mapError_eq_ok_iff.1 hlib
  rcases bind_eq_error_iff.1 h with h | ⟨dirs, hdirs, h⟩
  · obtain ⟨f, hf, rfl⟩ := mapError_eq_error_iff.1 h
    exact .inr ⟨f, rfl, .library hmain (by simp [mainLibrary, hlib, hf, bind, Except.bind])⟩
  replace hdirs := mapError_eq_ok_iff.1 hdirs
  have hlibrary : mainLibrary cfg = dirs.head?.elim (.error (.defect .index))
      Package.asText := by
    rw [mainLibrary, hlib, ok_bind, hdirs, ok_bind]
    cases dirs <;> rfl
  cases dirs with
  | nil =>
    cases h
    exact .inr ⟨_, rfl, .library hmain hlibrary⟩
  | cons first rest =>
    rcases bind_eq_error_iff.1 h with h | ⟨dir, -, h⟩
    · obtain ⟨f, hf, rfl⟩ := mapError_eq_error_iff.1 h
      exact .inr ⟨f, rfl, .library hmain (hlibrary.trans hf)⟩
    rcases bind_eq_error_iff.1 h with h | ⟨root, -, h⟩
    · obtain ⟨f, hf, rfl⟩ := mapError_eq_error_iff.1 h
      exact .inr ⟨f, rfl, .root hf⟩
    dsimp only at h
    split at h
    · rcases bind_eq_error_iff.1 h with h | ⟨name, -, h⟩
      · obtain ⟨f, hf, rfl⟩ := mapError_eq_error_iff.1 h
        exact .inr ⟨f, rfl, .name (by simp [Package.name, hf, bind, Except.bind])⟩
      · cases h
        exact .inl (.unreachable _ _ _)
    · cases h

theorem visibleSections_spec (user : Module) :
    (∀ sections, visibleSections user = .ok sections → ∀ x ∈ sections, x ∈ ["tests", "lib"]) ∧
      ∀ e, visibleSections user = .error e → InTerms e := by
  unfold visibleSections
  split
  · refine ⟨fun sections h => ?_, fun e h => by cases h⟩
    cases h
    exact fun x hx => hx
  · split
    · grind
    · refine ⟨fun sections h => (by cases h), fun e h => ?_⟩
      cases h
      exact .badSection _

theorem relativeName_error (h : relativeName user name = .error e) :
    InTerms e ∨ e = defect .index ∧ ∀ step ∈ names name, step = "." ∨ step = ".." := by
  rcases bind_eq_error_iff.1 h with h | ⟨names, -, h⟩
  · rw [climb_eq] at h
    split at h
    · cases h
      exact .inl (.badName _ _ _)
    · split at h
      · rename_i hdowns
        cases h
        exact .inr ⟨rfl, by simpa [downs, dropWhile_eq_nil_iff] using hdowns⟩
      · cases h
  · cases h

theorem gives_knownPackage (hkey : get? s.pkgs pkg = none → E (defect .key)) :
    Gives (knownPackage s pkg) (fun cfg => get? s.pkgs pkg = some cfg) E := by
  unfold knownPackage
  split
  · exact gives_pure ‹_›
  · exact gives_throw (hkey ‹_›)

/-- A warning needs the line of a call. -/
theorem gives_warnMoved {new : String}
    (hkind : line = none → contains s.target "ignore-deprecated-path" = false →
      E (defect .kind)) : Gives (warnMoved s user line name new) (fun _ => True) E := by
  unfold warnMoved
  split
  · exact gives_pure trivial
  · rename_i hwarn
    rw [Bool.not_eq_true] at hwarn
    refine (gives_modify _).bind fun _ _ => ?_
    cases line with
    | none => exact gives_throw (hkind rfl hwarn)
    | some n =>
      refine (gives_modify _).bind fun _ _ => (gives_modify _).bind fun _ _ => ?_
      exact (gives_modify _).bind fun _ _ => gives_modify _

/-- A kind of faults that has those of linking's own terms and those of packages. -/
structure Covers (s : Setting) (E : Fault → Prop) : Prop where
  terms : ∀ e, InTerms e → E e
  unfit : ∀ key cfg f, get? s.pkgs key = some cfg →
    Unfit cfg (Package.given? cfg "main") f → E (.pkg f)

variable (hE : Covers s E)

include hE

theorem gives_mainModule (pkg : Text) :
    Gives (mainModule s pkg) (fun found => ∀ m ∈ found, MainOf s m) E := by
  unfold mainModule
  split
  · exact gives_pure fun m hm => by cases hm
  rename_i cfg hcfg
  split
  · exact gives_pure fun m hm => by cases hm
  rename_i main hmain
  have hunfit := fun f => hE.unfit _ _ f hcfg
  refine (gives_liftPackage fun f hf => hunfit f (.root hf)).bind fun root hroot => ?_
  refine (gives_liftPackage fun f hf => hunfit f (.main hmain hf)).bind fun mainName htext => ?_
  refine (gives_firstFound (R := fun _ found => ∀ m ∈ found, MainOf s m) fun file hfile =>
    (gives_modify _).bind fun _ _ => ?_).mono fun found hfound m hm => ?_
  · split
    · exact gives_pure fun m hm => by cases hm
    refine (gives_lift fun e he => ?_).bind fun name hlibrary => ?_
    · rcases nameInLibrary_error (Option.isSome_iff_exists.2 ⟨main, hmain⟩) he
        with hterms | ⟨f, rfl, hf⟩
      · exact hE.terms e hterms
      · exact hunfit f hf
    refine (gives_liftPackage fun f hf => hunfit f (.name hf)).bind fun owner hname => ?_
    refine gives_pure fun m hm => ?_
    cases hm
    exact .intro hcfg hmain hroot htext hfile hlibrary hname
  · obtain ⟨-, file, -, -, -, hfile⟩ := hfound m hm
    exact hfile m rfl

variable (hsections : ∀ x ∈ sections, x ∈ ["tests", "lib"])

include hsections

theorem gives_inPackage (hkey : get? s.pkgs pkg = none → E (defect .key)) :
    Gives (inPackage s sections name pkg)
      (fun found => ∀ m ∈ found, Located s sections name pkg m) E := by
  unfold inPackage
  refine (gives_knownPackage hkey).bind fun cfg hcfg => ?_
  have hunfit := fun f => hE.unfit _ _ f hcfg
  generalize hfileName : fileName name = names
  obtain ⟨file, stem⟩ := names
  -- Where a directory has no such file, the next one is looked into.
  refine (gives_firstFound (R := fun sec found => ∀ m ∈ found, m.sec = sec ∧
    m.name = name ∧ ∃ root owner, Package.rootDir cfg = .ok root ∧
      Package.name cfg = .ok owner ∧ m.pkg = owner.display ∧
      fileIn? s cfg root sec file = some m.file ∧ (m.documentation = none ∨
        m.documentation = some (joinAll root ["docs", stem ++ ".md"])))
    fun sec hsection => ?_).mono fun found hfound m hm => ?_
  · have hdirs : Gives (sectionDirs cfg sec) (fun dirs => dirs = dirsOf cfg sec) E := by
      unfold sectionDirs dirsOf
      cases hv : get? cfg sec with
      | none => exact gives_pure rfl
      | some v =>
        refine (gives_liftPackage fun f hf =>
          hunfit f (.dirs (hsections _ hsection) hv hf)).mono fun dirs h => ?_
        simp only [h]
        rfl
    refine hdirs.bind fun dirs hdirs => ?_
    subst hdirs
    refine (gives_firstFound (R := fun dir found => ∃ root, Package.rootDir cfg = .ok root ∧
      s.files.contains (joinAll root [dir.display, file]) = found.isSome ∧
      ∀ m ∈ found, m.sec = sec ∧ m.name = name ∧ m.file = joinAll root [dir.display, file] ∧
        (∃ owner, Package.name cfg = .ok owner ∧ m.pkg = owner.display) ∧
        (m.documentation = none ∨ m.documentation = some (joinAll root ["docs", stem ++ ".md"])))
      fun dir _ => ?_).mono fun found hfound m hm => ?_
    · refine (gives_liftPackage fun f hf => hunfit f (.root hf)).bind fun root hroot => ?_
      refine (gives_modify _).bind fun _ _ => ?_
      split
      · rename_i hmissing
        exact gives_pure ⟨root, hroot, by simpa using hmissing, fun m hm => by cases hm⟩
      · rename_i hfile
        refine (gives_liftPackage fun f hf => hunfit f (.name hf)).bind fun owner hname => ?_
        refine gives_pure ⟨root, hroot, by simpa using hfile, fun m hm => ?_⟩
        cases hm
        grind
    · obtain ⟨skipped, dir, rest, hsplit, hskipped, root, hroot, hfile, hm'⟩ := hfound m hm
      obtain ⟨hsection, hname, hpath, ⟨owner, howner, hpkg⟩, hpage⟩ := hm' m rfl
      refine ⟨hsection, hname, root, owner, hroot, howner, hpkg, ?_, hpage⟩
      rw [fileIn?, hsplit, map_append, find?_append, find?_eq_none.2, Option.none_or, map_cons,
        find?_cons_of_pos hfile, hpath]
      grind
  · obtain ⟨before, sec, after, rfl, -, hm'⟩ := hfound m hm
    obtain ⟨hsection, hname, root, owner, hroot, howner, hpkg, hfile, hpage⟩ := hm' m rfl
    refine ⟨hname, hsection ▸ mem_append_right _ mem_cons_self, cfg, root, owner, hcfg,
      hroot, howner, hpkg, ?_, ?_⟩
    · rw [hsection, hfileName]
      exact hfile
    · rw [hfileName]
      exact hpage

theorem gives_inPackageIfKnown :
    Gives (inPackageIfKnown s sections name pkg)
      (fun found => ∀ m ∈ found, Located s sections name pkg m) E := by
  unfold inPackageIfKnown
  split
  · rename_i hknown
    refine gives_inPackage hE hsections fun hnone => ?_
    rw [Assoc.contains, hnone] at hknown
    cases hknown
  · exact gives_pure fun m hm => by cases hm

theorem gives_byPackage :
    Gives (byPackage s sections name) (fun found => ∀ m ∈ found,
      MainOf s m ∨ ∃ n ∈ directNames name, ∃ owner, Located s sections n owner m) E := by
  unfold byPackage
  split
  · rename_i first second rest hnames
    exact (gives_inPackageIfKnown hE hsections).mono fun found hfound m hm =>
      .inr ⟨_, by simp [directNames, hnames], _, hfound m hm⟩
  · exact (gives_mainModule hE _).mono fun found hfound m hm => .inl (hfound m hm)

theorem gives_inSearchPath (hkey : ∀ n, OnPath s pkg n → get? s.pkgs n = none → E (defect .key)) :
    Gives (inSearchPath s pkg sections name)
      (fun found => ∀ m ∈ found, ∃ owner, Located s sections name owner m) E := by
  have hpath : Gives (searchPath s pkg) (fun path => ∀ n ∈ path, OnPath s pkg n) E := by
    unfold searchPath
    refine (gives_knownPackage (hkey _ .own)).bind fun cfg hcfg => ?_
    have hlisted : ∀ v, get? cfg "dependencies" = some v →
        (Package.asElements v >>= fun l => l.mapM Package.dependencyName) =
          Package.listedAt cfg "dependencies" := by
      intro v hv
      rw [Package.listedAt, hv]
    cases hv : get? cfg "dependencies" with
    | none =>
      refine gives_pure (forall_mem_cons.2 ⟨.own, fun n hn => ?_⟩)
      exact .atHand (mem_mergeSort.1 hn)
    | some v =>
      refine (gives_liftPackage fun f hf => hE.unfit _ _ f hcfg
        (.dependencies ((hlisted v hv).symm.trans hf))).bind fun names hnames => ?_
      refine gives_pure (forall_mem_cons.2 ⟨.own, fun n hn => ?_⟩)
      exact .listed hcfg ((hlisted v hv).symm.trans hnames) hn
  refine hpath.bind fun path hpath => ?_
  refine (gives_firstFound fun n hn => gives_inPackage hE hsections (hkey n (hpath n hn))).mono
    fun found hfound m hm => ?_
  obtain ⟨-, owner, -, -, -, hm'⟩ := hfound m hm
  exact ⟨owner, hm' m rfl⟩

omit hE hsections

theorem isEmpty_of_isRelative (h : isRelative name) : name.isEmpty = false := by
  rw [← Bool.not_eq_true]
  intro hempty
  obtain rfl : name = "" := by simpa using hempty
  exact absurd h (by decide)

/-- **Where the search for a name can end.** -/
theorem gives_resolve (s : Setting) (user : Module) (name : String) (line : Option Nat) :
    Gives (resolve s user name line) (fun found => ∀ m ∈ found, Leads s user name m)
      (Trouble s user name line) := by
  have hE : Covers s (Trouble s user name line) := ⟨fun _ => .terms, fun _ _ _ => .unfit⟩
  obtain ⟨hvisible, herror⟩ := visibleSections_spec user
  unfold resolve
  split
  · exact gives_throw (.terms (.badName _ _ _))
  refine (gives_lift fun e he => .terms (herror e he)).bind fun sections hsome => ?_
  have hsections := hvisible sections hsome
  dsimp only
  by_cases hrel : isRelative name
  · rw [if_pos hrel]
    refine (gives_lift fun e he => ?_).bind fun inside hinside => ?_
    · rcases relativeName_error he with hterms | ⟨rfl, hdots⟩
      · exact .terms hterms
      · exact .dots hrel hdots
    · exact (gives_inPackageIfKnown hE hsections).mono fun found hfound m hm =>
        ⟨sections, hsome, .inl ⟨hrel, inside, hinside, hfound m hm⟩⟩
  rw [if_neg hrel]
  rw [Bool.not_eq_true] at hrel
  have hnear : ∀ n ∈ directNames name,
      Gives (inSearchPath s (Text.ofString user.pkg) sections n)
        (fun found => ∀ m ∈ found, Leads s user name m) (Trouble s user name line) := by
    intro n hn
    refine (gives_inSearchPath hE hsections fun _ => .unknown).mono fun found hfound m hm => ?_
    exact ⟨sections, hsome, .inr ⟨hrel, .inr ⟨n, hn, hfound m hm⟩⟩⟩
  refine (gives_byPackage hE hsections).bind fun direct hdirect => ?_
  split
  · exact gives_pure fun m hm => ⟨sections, hsome, .inr ⟨hrel, hdirect m hm⟩⟩
  refine (hnear name (by simp [directNames])).bind fun near hleads => ?_
  split
  · exact gives_pure hleads
  split
  · exact gives_pure fun m hm => by cases hm
  · rename_i new hnew
    refine (gives_warnMoved fun hline => .moved hrel hline hnew).bind fun _ _ => ?_
    exact hnear new (by simp [directNames, hnew])

theorem Means.leads (h : Means s user name line (some m)) : Leads s user name m := by
  obtain ⟨trail, hrun⟩ := h
  exact (gives_resolve s user name line _ _ _ hrun).1 _ rfl m rfl

/-- **What a name can mean.** -/
theorem Means.found (h : Means s user name line (some m)) :
    (isRelative name ∧ FoundIn s m ∧ relativeName user name = .ok m.name) ∨
      MainOf s m ∨ (FoundIn s m ∧ m.name ∈ directNames name) := by
  obtain ⟨sections, hvisible, hlocated⟩ := h.leads
  have hsections := (visibleSections_spec user).1 _ hvisible
  rcases hlocated with ⟨hrel, inside, hinside, hm⟩ | ⟨-, hmain | ⟨n, hn, owner, hm⟩⟩
  · exact .inl ⟨hrel, hm.foundIn hsections, hm.name_eq ▸ hinside⟩
  · exact .inr (.inl hmain)
  · exact .inr (.inr ⟨hm.foundIn hsections, hm.name_eq ▸ hn⟩)

end Searches

end AddonBuilder.Linker
