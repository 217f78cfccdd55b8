import AddonBuilder.Proofs.Linker.Paths

/-!
# Causes of faults

Linking has faults of its own for a name that no module has, a name that cannot be one, a module of
another section, a main file outside the library, and `Components` used without asking for it
(`InTerms`).
-/

namespace AddonBuilder.Linker

open Json Assoc
open Package (Config)

variable {e : Fault} {cfg : Config} {name : String} {line : Option Nat}

/-- Why linking can fail in other terms than its own. -/
inductive Cause (s : Setting) (scope : Scope) : Package.Fault → Prop
  /-- A package cannot be used. -/
  | pkg {f : Package.Fault} {key : Text} {cfg : Config} (hcfg : get? s.pkgs key = some cfg)
      (h : Unfit cfg (Package.given? cfg "main") f) : Cause s scope f
  | target {f : Package.Fault} (h : Unfit s.target (get? s.target "main") f) : Cause s scope f
  /-- A package that is not at hand lists a dependency that is not known. -/
  | stranger {m : Module} {cfg : Config} {names : List Text} {n : Text} (hm : Met s scope m)
      (hcfg : get? s.pkgs (Text.ofString m.pkg) = some cfg)
      (haway : Text.ofString m.pkg ∉ s.available)
      (hnames : Package.listedAt cfg "dependencies" = .ok names) (hn : n ∈ names)
      (hunknown : get? s.pkgs n = none) : Cause s scope (.defect .key)
  /-- A module asks for a relative name that is nothing but dots. -/
  | dots {m : Module} {name : String} {line : Option Nat} (hm : Met s scope m)
      (hasks : Asks s m name line) (hrel : isRelative name = true)
      (hdots : ∀ step ∈ Path.names name, step = "." ∨ step = "..") :
      Cause s scope (.defect .index)
  /-- A module has the former name of another one in a list only, and the target does not turn off
  the warning about it. -/
  | moved {m : Module} {name new : String} (hm : Met s scope m) (hasks : Asks s m name none)
      (hrel : isRelative name = false)
      (hmoved : get? relocated (formerName name) = some new)
      (hwarn : contains s.target "ignore-deprecated-path" = false) :
      Cause s scope (.defect .kind)
  /-- A module has a name like a relative one. -/
  | relative {m : Module} (hm : Met s scope m) (hrel : isRelative m.name = true) :
      Cause s scope (.defect .assumption)
  /-- What should be a file of a module is none. -/
  | unreadable {m : Module} {path : String} (hm : Met s scope m)
      (hpath : path ∈ m.file :: m.documentation.toList) (hread : s.files.read? path = none) :
      Cause s scope (.defect .file)
  /-- A module is no text; every file is one if strings are held as bytes. -/
  | garbled {m : Module} {content : Bytes} (hm : Met s scope m)
      (hread : s.files.read? m.file = some content)
      (htext : s.strings.source? content = none) : Cause s scope (.defect .encoding)
  /-- What should be a data file is none. -/
  | data {root name : String} {visit : Files.Visit} (hroot : Package.rootDir s.target = .ok root)
      (hvisit : visit ∈ s.files.walk Files.keepsDir (Path.join root "data"))
      (hname : name ∈ visit.files.filter (Files.keepsFile Files.ignoredFiles))
      (hread : s.files.read? (Path.join visit.path name) = none) :
      Cause s scope (.defect .file)

/-- A fault that linking may have. -/
def Expected (s : Setting) (scope : Scope) (f : Fault) : Prop :=
  InTerms f ∨ ∃ g, f = .pkg g ∧ Cause s scope g

/-- What linking counts on: packages stand under their names, the target is one of them and has a
main file, and the packages at hand, their dependencies and those of extra modules are known. -/
structure Complete (s : Setting) (scope : Scope) : Prop where
  filed : Package.Filed s.pkgs
  characters : ∀ key ∈ keys s.pkgs, key.Characters
  target : ∃ key, get? s.pkgs key = some s.target
  main : ∀ main root, get? s.target "main" = some main → Package.rootDir s.target = .ok root →
    ∃ dir ∈ dirsOf s.target "lib",
      ∃ file ∈ mainFiles root main.plain.display (some dir.display), s.files.contains file = true
  available : ∀ key ∈ s.available, contains s.pkgs key = true
  dependencies : ∀ key ∈ s.available, ∀ cfg names, get? s.pkgs key = some cfg →
    Package.listedAt cfg "dependencies" = .ok names →
    ∀ n ∈ names, contains s.pkgs n = true
  extra : ∀ x ∈ scope.extra, contains s.pkgs x.pkg = true

theorem Cause.expected {s : Setting} {scope : Scope} {f : Package.Fault} (h : Cause s scope f) :
    Expected s scope (.pkg f) := .inr ⟨f, rfl, h⟩

section Searches

variable {s : Setting} {scope : Scope} {m : Module}

theorem topModule_spec {main : Value} (htop : topModule s main = .ok m) :
    (∃ owner, Package.name s.target = .ok owner ∧ m.pkg = owner.display) ∧
      (∃ root name library, m.file ∈ mainFiles root name library) ∧
      nameInLibrary s.files s.target m.file = .ok m.name := by
  unfold topModule at htop
  obtain ⟨root, -, htop⟩ := bind_ok_iff.1 htop
  obtain ⟨values, -, htop⟩ := bind_ok_iff.1 htop
  dsimp only at htop
  split at htop
  all_goals
    obtain ⟨mainName, -, htop⟩ := bind_ok_iff.1 htop
    obtain ⟨libraries, -, htop⟩ := bind_ok_iff.1 htop
    split at htop
    · cases htop
    · rename_i file hfile
      obtain ⟨library, -, hmem⟩ := List.mem_flatMap.1 (List.mem_of_find?_eq_some hfile)
      obtain ⟨name, hname, htop⟩ := bind_ok_iff.1 htop
      obtain ⟨owner, howner, htop⟩ := bind_ok_iff.1 htop
      cases htop
      exact ⟨⟨owner, mapError_eq_ok_iff.1 howner, rfl⟩, ⟨_, _, _, hmem⟩, hname⟩

theorem extraModule_package {x : ExtraModule} (hextra : extraModule s x = .ok m) :
    ∃ cfg owner, get? s.pkgs x.pkg = some cfg ∧
      Package.name cfg = .ok owner ∧ m.pkg = owner.display := by
  unfold extraModule at hextra
  split at hextra
  · cases hextra
  · rename_i cfg hcfg
    obtain ⟨owner, howner, hextra⟩ := bind_ok_iff.1 hextra
    cases hextra
    exact ⟨cfg, owner, hcfg, mapError_eq_ok_iff.1 howner, rfl⟩

variable (hcomplete : Complete s scope) (htests : scope.tests = false)

include hcomplete

theorem Complete.known {key owner : Text}
    (hcfg : get? s.pkgs key = some cfg) (howner : Package.name cfg = .ok owner) :
    get? s.pkgs (Text.ofString owner.display) = some cfg := by
  have hkey : key ∈ keys s.pkgs := contains_iff.1 (Option.isSome_iff_exists.2 ⟨cfg, hcfg⟩)
  obtain rfl := hcomplete.filed key cfg owner hcfg howner
  rw [Text.ofString_display (hcomplete.characters _ hkey), hcfg]

include htests

/-- Every module that is met belongs to a known package. -/
theorem Met.known (hm : Met s scope m) : ∃ cfg, get? s.pkgs (Text.ofString m.pkg) = some cfg := by
  rcases hm.given_or_located with hgiven | ⟨sections, name, pkg, -, hlocated⟩
  · cases hgiven with
    | top hmain htop =>
      obtain ⟨key, htarget⟩ := hcomplete.target
      obtain ⟨⟨owner, howner, hpkg⟩, -⟩ := topModule_spec htop
      rw [hpkg]
      exact ⟨_, hcomplete.known htarget howner⟩
    | main hmain =>
      cases hmain with
      | intro hcfg _ _ _ _ _ hname => exact ⟨_, hcomplete.known hcfg hname⟩
    | test h => exact absurd h.1 (by rw [htests]; exact Bool.false_ne_true)
    | extra hx hextra =>
      obtain ⟨cfg, owner, hcfg, howner, hpkg⟩ := extraModule_package hextra
      rw [hpkg]
      exact ⟨_, hcomplete.known hcfg howner⟩
  · obtain ⟨cfg, root, hcfg, -⟩ := hlocated.cfg hcomplete.filed hcomplete.characters
    exact ⟨cfg, hcfg⟩

/-- What goes wrong with a name is expected. -/
theorem Trouble.expected (hm : Met s scope m) (hasks : Asks s m name line)
    (h : Trouble s m name line e) : Expected s scope e := by
  cases h with
  | terms h => exact .inl h
  | unfit hcfg h => exact Cause.expected (.pkg hcfg h)
  | @unknown n hn hnone =>
    have hknown : contains s.pkgs n → Expected s scope (defect .key) := by
      intro hn
      rw [contains, hnone] at hn
      cases hn
    obtain ⟨cfg, hcfg⟩ := hm.known hcomplete htests
    cases hn with
    | own => exact hknown (contains_of_get? hcfg)
    | listed hcfg hlisted hn =>
      by_cases hhand : Text.ofString m.pkg ∈ s.available
      · exact hknown (hcomplete.dependencies _ hhand _ _ hcfg hlisted n hn)
      · exact Cause.expected (.stranger hm hcfg hhand hlisted hn hnone)
    | atHand hn => exact hknown (hcomplete.available n hn)
  | dots hrel hdots => exact Cause.expected (.dots hm hasks hrel hdots)
  | moved hrel hline hmoved hwarn =>
    exact Cause.expected (.moved hm (hline ▸ hasks) hrel hmoved hwarn)

end Searches

end AddonBuilder.Linker
