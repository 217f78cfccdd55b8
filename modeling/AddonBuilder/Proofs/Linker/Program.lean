import AddonBuilder.Proofs.Files.Names
import AddonBuilder.Proofs.Linker.Run

/-!
# The modules of a program

A program starts from the main module of the target, from its tests and what runs them if they are
wanted, and from the extra modules.
-/

namespace AddonBuilder.Linker

open Json List

variable {s : Setting} {m : Module} {name : String} {line : Option Nat} {found : Option Module}
  {scope : Scope} {required : Requirements} {σ τ : Manifest}

/-- What a file with this content asks for, if it is a text. -/
def askedBy? (k : Strings) (content : Bytes) : Option Requirements :=
  (k.source? content).map fun text => requirements (Text.cutAfterLineFeed text.toList)

/-- What a file asks for, if it can be read. -/
def asked? (s : Setting) (file : String) : Option Requirements :=
  (s.files.read? file).bind (askedBy? s.strings)

/-- A module asks for a name, in a line. -/
def Asks (s : Setting) (m : Module) (name : String) (line : Option Nat) : Prop :=
  ∃ required, asked? s m.file = some required ∧ Assoc.get? required name = some line

/-- The search for a name that a module asks for ends with a module or without one. -/
def Means (s : Setting) (m : Module) (name : String) (line : Option Nat)
    (found : Option Module) : Prop :=
  ∃ trail, Runs (resolve s m name line) {} (.ok found) trail

theorem Means.unique {found' : Option Module} (h : Means s m name line found)
    (h' : Means s m name line found') : found = found' := by
  obtain ⟨trail, h⟩ := h
  obtain ⟨trail', h'⟩ := h'
  cases h.symm.trans h'
  rfl

/-- What stands for a name that a module asks for; nothing may. -/
inductive StandsFor (s : Setting) (m : Module) (name : String) (line : Option Nat) :
    Option Requirement → Prop
  | provided (hname : isProvided name = true) : StandsFor s m name line (some (.name name))
  | found {other : Module} (hfree : isProvided name = false)
      (hmeans : Means s m name line (some other)) :
      StandsFor s m name line (some (.place other.toPlace))
  | missing (hfree : isProvided name = false) (hmeans : Means s m name line none)
      (hsection : m.sec ≠ "tests") (hending : Text.endsWith name ".jsm" = false) :
      StandsFor s m name line (some (.name name))
  | ignored (hfree : isProvided name = false) (hmeans : Means s m name line none)
      (h : m.sec = "tests" ∨ Text.endsWith name ".jsm" = true) :
      StandsFor s m name line none

def meant? (s : Setting) (m : Module) (name : String) (line : Option Nat) :
    Option (Option Module) :=
  ((resolve s m name line).run.run {}).1.toOption

/-- What a name means can be computed. -/
theorem means_iff : Means s m name line found ↔ meant? s m name line = some found := by
  unfold Means Runs meant?
  rcases (resolve s m name line).run.run {} with ⟨e | a, trail⟩
  · constructor
    · rintro ⟨trail', h⟩
      cases h
    · nofun
  · constructor
    · rintro ⟨trail', h⟩
      cases h
      rfl
    · intro h
      cases h
      exact ⟨trail, rfl⟩

/-- The modules that are followed without being asked for by another. -/
inductive Start (s : Setting) (scope : Scope) : Module → Prop
  | main {main : Value} {m : Module} (hmain : Assoc.get? s.target "main" = some main)
      (hm : topModule s main = .ok m) :
      Start s scope m
  | runner {m : Module} (htests : scope.tests = true)
      (hm : ∃ trail, Runs (findRunner s) {} (.ok m) trail) :
      Start s scope m
  | test {m : Module} {tests : List Module} {dir : String} {dirs : List String}
      {pkg : Text} (htests : scope.tests = true)
      (hdirs : testDirs s = .ok dirs)
      (hpkg : fromPackage (Package.name s.target) = .ok pkg)
      (hdir : dir ∈ dirs)
      (hlist : testsIn s scope.filter pkg.display dir = .ok tests) (hm : m ∈ tests) :
      Start s scope m
  | extra {m : Module} {x : ExtraModule} (hx : x ∈ scope.extra) (hm : extraModule s x = .ok m) :
      Start s scope m

/-- The modules from which linking starts if it leaves out the tests. -/
def starts (s : Setting) (scope : Scope) : List Module :=
  ((Assoc.get? s.target "main").toList.flatMap fun main => (topModule s main).toOption.toList) ++
    scope.extra.flatMap fun x => (extraModule s x).toOption.toList

theorem mem_starts (htests : scope.tests = false) (h : Start s scope m) : m ∈ starts s scope := by
  cases h with
  | main hmain htop =>
    refine mem_append_left _ (mem_flatMap.2 ⟨_, Option.mem_toList.2 hmain, ?_⟩)
    simp [htop, Except.toOption]
  | runner h => simp [htests] at h
  | test h => simp [htests] at h
  | extra hx hm =>
    refine mem_append_right _ (mem_flatMap.2 ⟨_, hx, ?_⟩)
    simp [hm, Except.toOption]

/-- The modules of a program. -/
inductive Met (s : Setting) (scope : Scope) : Module → Prop
  | start {m : Module} (hm : Start s scope m) : Met s scope m
  | asked {m other : Module} {name : String} {line : Option Nat} (hm : Met s scope m)
      (hasks : Asks s m name line) (hfree : isProvided name = false)
      (hmeans : Means s m name line (some other)) :
      Met s scope other

/-- Every module that is meant by a name which a listed module asks for is listed too. -/
def Closed (s : Setting) (ms : List Module) : Prop :=
  ∀ m ∈ ms, ∀ x ∈ (asked? s m.file).getD [], isProvided x.1 = false →
    ∀ other ∈ (meant? s m x.1 x.2).join.toList, other ∈ ms

instance (s : Setting) (ms : List Module) : Decidable (Closed s ms) :=
  inferInstanceAs (Decidable (∀ m ∈ ms, _))

/-- A list with every start that is closed under asking holds every module. -/
theorem Met.mem_of_closed {ms : List Module}
    (hstart : ∀ m, Start s scope m → m ∈ ms) (hclosed : Closed s ms)
    (hm : Met s scope m) : m ∈ ms := by
  induction hm with
  | start h => exact hstart _ h
  | @asked _ _ name line _ hasks hfree hmeans ih =>
    obtain ⟨required, hasked, hline⟩ := hasks
    refine hclosed _ ih (name, line) ?_ hfree _ ?_
    · rw [hasked]
      exact Assoc.mem_of_get? hline
    · rw [means_iff.1 hmeans]
      exact mem_singleton.2 rfl

theorem asked?_of_linesOf {path : String} {lines : List (List Char)}
    (hlines : linesOf s path = .ok lines) : asked? s path = some (requirements lines) := by
  unfold linesOf contentOf at hlines
  cases hread : s.files.read? path with
  | none =>
    rw [hread] at hlines
    cases hlines
  | some content =>
    cases htext : s.strings.source? content with
    | none =>
      simp only [hread, bind, Except.bind, htext] at hlines
      cases hlines
    | some text =>
      simp only [hread, bind, Except.bind, htext] at hlines
      cases hlines
      simp [asked?, askedBy?, hread, htext]

theorem runs_readRequirements (hrun : Runs (readRequirements s m) σ (.ok required) τ) :
    τ = σ ∧ asked? s m.file = some required := by
  rw [readRequirements, runs_bind_ok_iff] at hrun
  obtain ⟨lines, ρ, hperform, hrun⟩ := hrun
  obtain ⟨hlines, hρ⟩ := runs_perform_ok_iff.1 hperform
  have hasked := asked?_of_linesOf hlines
  split at hrun
  · rw [runs_bind_ok_iff] at hrun
    obtain ⟨_, _, _, hrun⟩ := hrun
    cases (runs_throw_iff.1 hrun).1
  · obtain ⟨hrequired, rfl⟩ := runs_pure_iff.1 hrun
    cases hrequired
    exact ⟨hρ, hasked⟩

theorem runs_openModule (hrun : Runs (openModule s m) σ (.ok required) τ) :
    Runs (enterFiles s m) σ (.ok ()) τ ∧ asked? s m.file = some required := by
  unfold openModule at hrun
  split at hrun
  · cases (runs_throw_iff.1 hrun).1
  · rw [runs_bind_ok_iff] at hrun
    obtain ⟨_, ρ, henter, hread⟩ := hrun
    obtain ⟨rfl, hasked⟩ := runs_readRequirements hread
    exact ⟨henter, hasked⟩

theorem mem_sortedStrings_keys :
    name ∈ sortedStrings (Assoc.keys required) ↔ ∃ line, Assoc.get? required name = some line := by
  rw [sortedStrings_eq, mem_insertionSort, ← Option.ne_none_iff_exists', ne_eq,
    Assoc.get?_eq_none_iff, Decidable.not_not]

end AddonBuilder.Linker
