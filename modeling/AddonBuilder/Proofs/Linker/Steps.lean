import AddonBuilder.Proofs.Linker.Program
import AddonBuilder.Proofs.Outcome

/-!
# The steps of linking

Linking changes its manifest in small steps, and there are few kinds of them (`Step`); each says
whose entry is changed and why.
-/

namespace AddonBuilder.Linker

open Json Assoc
open Relation (ReflTransGen)

variable {s : Setting} {scope : Scope} {m : Module} {name : String} {line : Option Nat} {p : Place}
  {ρ σ τ : Manifest}

namespace Manifest

/-- The entry of a place, empty if there is none. -/
def entry (σ : Manifest) (p : Place) : Entry := (get? σ.entries p).getD {}

/-- The manifest has an entry for the place. -/
def Holds (σ : Manifest) (p : Place) : Prop := contains σ.entries p = true

def update (σ : Manifest) (p : Place) (f : Entry → Entry) : Manifest :=
  { σ with entries := insert σ.entries p (f (σ.entry p)) }

/-- Notes what a module's request leads to. -/
def required (σ : Manifest) (p : Place) (name : String) (r : Requirement) : Manifest :=
  σ.update p fun e => { e with requirements := insert e.requirements name r }

theorem entry_update (σ : Manifest) (p q : Place) (f : Entry → Entry) :
    (σ.update p f).entry q = if p = q then f (σ.entry p) else σ.entry q := by
  simp only [entry, update, get?_insert]
  split <;> rfl

theorem holds_update (σ : Manifest) (p q : Place) (f : Entry → Entry) :
    (σ.update p f).Holds q ↔ p = q ∨ σ.Holds q := by
  simp only [Holds, update, contains, get?_insert]
  split <;> simp_all

/-- An empty entry is what a place without one seems to have. -/
theorem entry_claimed (σ : Manifest) (p q : Place) : (σ.claimed p).entry q = σ.entry q := by
  unfold claimed
  split
  · rfl
  · rename_i hnew
    simp only [entry, get?_insert]
    split
    · rename_i hq
      subst hq
      have hnone : get? σ.entries p = none := by
        simpa [contains] using hnew
      rw [hnone]
      rfl
    · rfl

theorem holds_claimed (σ : Manifest) (p q : Place) : (σ.claimed p).Holds q ↔ p = q ∨ σ.Holds q := by
  unfold claimed
  split
  · rename_i hold
    constructor
    · exact .inr
    · rintro (rfl | h)
      · exact hold
      · exact h
  · simp only [Holds, contains, get?_insert]
    split <;> simp_all

end Manifest

theorem runs_updateEntry_iff {f : Entry → Entry} {r : Except Stop Unit} :
    Runs (updateEntry p f) σ r τ ↔ r = .ok () ∧ τ = σ.update p f :=
  runs_modify_iff

theorem hashFile_file {path : String} {h : HashedFile} (hhash : hashFile s.files path = .ok h) :
    h.file = path := by
  obtain ⟨content, -, hh⟩ := bind_ok_iff.1 hhash
  cases hh
  rfl

/-- A test that was found in a directory of tests. -/
def ScannedTest (s : Setting) (scope : Scope) (m : Module) : Prop :=
  scope.tests = true ∧ ∃ dirs pkg dir tests,
    testDirs s = .ok dirs ∧ fromPackage (Package.name s.target) = .ok pkg ∧
      dir ∈ dirs ∧ testsIn s scope.filter pkg.display dir = .ok tests ∧
      m ∈ tests

theorem ScannedTest.met (h : ScannedTest s scope m) : Met s scope m := by
  obtain ⟨htests, dirs, pkg, dir, tests, hdirs, hpkg, hdir, hlist, hm⟩ := h
  exact .start (.test htests hdirs hpkg hdir hlist hm)

/-- What linking can do to a manifest at once. -/
inductive Step (s : Setting) (scope : Scope) : Manifest → Manifest → Prop
  | noted (σ : Manifest) (t : String) : Step s scope σ { σ with notes := σ.notes ++ t }
  | top (σ : Manifest) (path : String) : Step s scope σ { σ with top := some path }
  | data (σ : Manifest) (name : Text) {d : DataFiles} (hd : dataFiles s s.target = .ok d) :
      Step s scope σ { σ with data := insert σ.data name d }
  | claimed (σ : Manifest) {m : Module} (hm : Met s scope m) : Step s scope σ (σ.claimed m.toPlace)
  | reached (σ : Manifest) {m : Module} (hm : Met s scope m) (hnew : m ∉ σ.followed) :
      Step s scope σ (σ.reached m)
  | source (σ : Manifest) {m : Module} {h : HashedFile} (hm : Met s scope m)
      (hfile : hashFile s.files m.file = .ok h) :
      Step s scope σ (σ.update m.toPlace fun e => { e with source := some h })
  | page (σ : Manifest) {m : Module} {h : HashedFile} (hm : Met s scope m) :
      Step s scope σ (σ.update m.toPlace fun e => { e with documentation := some h })
  | required (σ : Manifest) {m : Module} {name : String} {line : Option Nat} {r : Requirement}
      (hm : Met s scope m) (hasks : Asks s m name line)
      (hstands : StandsFor s m name line (some r))
      (hreached : ∀ q, r = .place q → ∃ other ∈ σ.followed, other.toPlace = q) :
      Step s scope σ (σ.required m.toPlace name r)
  | finder (σ : Manifest) (htests : scope.tests = true) : Step s scope σ (σ.claimed testFinder)
  | test (σ : Manifest) {m : Module} (hm : ScannedTest s scope m) (hheld : σ.Holds m.toPlace) :
      Step s scope σ (σ.required testFinder m.name (.place m.toPlace))
  | listed (σ : Manifest) (path : String) : Step s scope σ { σ with tests := σ.tests ++ [path] }

/-- Any number of steps. -/
abbrev Steps (s : Setting) (scope : Scope) : Manifest → Manifest → Prop :=
  ReflTransGen (Step s scope)

/-- **An invariant of every step is one of every sequence of steps.** -/
theorem Steps.invariant {I : Manifest → Prop} (hstep : ∀ σ τ, Step s scope σ τ → I σ → I τ)
    (h : Steps s scope σ τ) (hσ : I σ) : I τ := by
  induction h with
  | refl => exact hσ
  | tail _ hlast ih => exact hstep _ _ hlast ih

/-! ## Nothing is taken back -/

/-- Nothing that has been entered is taken back. -/
structure Grows (σ τ : Manifest) : Prop where
  holds : ∀ p, σ.Holds p → τ.Holds p
  source : ∀ p, (σ.entry p).source.isSome → (τ.entry p).source.isSome
  required : ∀ p name, contains (σ.entry p).requirements name →
    contains (τ.entry p).requirements name
  followed : σ.followed <+: τ.followed

section Growth

variable {f : Entry → Entry}

theorem Grows.refl (σ : Manifest) : Grows σ σ :=
  ⟨fun _ h => h, fun _ h => h, fun _ _ h => h, List.prefix_rfl⟩

theorem Grows.trans (h : Grows ρ σ) (h' : Grows σ τ) : Grows ρ τ :=
  ⟨fun p hp => h'.holds p (h.holds p hp), fun p hp => h'.source p (h.source p hp),
    fun p name hp => h'.required p name (h.required p name hp), h.followed.trans h'.followed⟩

theorem grows_claimed (σ : Manifest) (p : Place) : Grows σ (σ.claimed p) where
  holds q hq := (σ.holds_claimed p q).2 (.inr hq)
  source q hq := by rwa [σ.entry_claimed]
  required q name hq := by rwa [σ.entry_claimed]
  followed := σ.followed_claimed p ▸ List.prefix_rfl

theorem grows_reached (σ : Manifest) (m : Module) : Grows σ (σ.reached m) := by
  obtain ⟨hholds, hsource, hrequired, -⟩ := grows_claimed σ m.toPlace
  exact ⟨hholds, hsource, hrequired, List.prefix_append _ _⟩

theorem grows_update (hsource : ∀ e, e.source.isSome → (f e).source.isSome)
    (hrequired : ∀ e name, contains e.requirements name → contains (f e).requirements name) :
    Grows σ (σ.update p f) where
  holds q hq := (σ.holds_update p q f).2 (.inr hq)
  source q hq := by
    rw [σ.entry_update]
    split
    · rename_i hpq
      exact hsource _ (hpq ▸ hq)
    · exact hq
  required q name hq := by
    rw [σ.entry_update]
    split
    · rename_i hpq
      exact hrequired _ _ (hpq ▸ hq)
    · exact hq
  followed := List.prefix_rfl

theorem grows_required (σ : Manifest) (p : Place) (name : String) (r : Requirement) :
    Grows σ (σ.required p name r) := by
  refine grows_update (fun _ h => h) ?_
  intro e n hn
  rw [contains, get?_insert]
  split
  · rfl
  · exact hn

theorem Step.grows (h : Step s scope σ τ) : Grows σ τ := by
  cases h with
  | noted | top | data | listed =>
    exact ⟨fun _ h => h, fun _ h => h, fun _ _ h => h, List.prefix_rfl⟩
  | claimed | finder => exact grows_claimed σ _
  | reached => exact grows_reached σ _
  | source => exact grows_update (fun _ _ => rfl) fun _ _ h => h
  | page => exact grows_update (fun _ h => h) fun _ _ h => h
  | required | test => exact grows_required σ _ _ _

theorem Steps.grows (h : Steps s scope σ τ) : Grows σ τ := by
  induction h with
  | refl => exact .refl σ
  | tail _ hstep ih => exact ih.trans hstep.grows

end Growth

/-! ## Plans -/

/-- Where a fault of linking comes from.  Tests may be missed for any reason. -/
inductive Origin (s : Setting) (scope : Scope) : Fault → Prop
  | relative {m : Module} (hm : Met s scope m) (hname : isRelative m.name = true) :
      Origin s scope (defect .assumption)
  | file {m : Module} {path : String} {f : Fault} (hm : Met s scope m)
      (hpath : path ∈ m.file :: m.documentation.toList) (h : hashFile s.files path = .error f) :
      Origin s scope f
  | lines {m : Module} {f : Fault} (hm : Met s scope m) (h : linesOf s m.file = .error f) :
      Origin s scope f
  | chrome : Origin s scope .chrome
  | search {m : Module} {name : String} {line : Option Nat} {f : Fault} {trail : Trail}
      (hm : Met s scope m) (hasks : Asks s m name line)
      (h : Runs (resolve s m name line) {} (.error f) trail) : Origin s scope f
  | notFound (n : NotFound) : Origin s scope (.notFound n)
  | main {main : Value} {f : Fault} (hmain : get? s.target "main" = some main)
      (h : topModule s main = .error f) : Origin s scope f
  | name {f : Fault} (h : fromPackage (Package.name s.target) = .error f) : Origin s scope f
  | data {f : Fault} (h : dataFiles s s.target = .error f) : Origin s scope f
  | tests (f : Fault) (htests : scope.tests = true) : Origin s scope f
  | extra {x : ExtraModule} {f : Fault} (hx : x ∈ scope.extra) (h : extraModule s x = .error f) :
      Origin s scope f

/-- A stop that linking may come to. -/
def Foreseen (s : Setting) (scope : Scope) (stop : Stop) : Prop :=
  stop = .endless ∨ ∃ f, stop = .fault f ∧ Origin s scope f

/-- What is expected of a way to call for modules of the program: it goes in steps and stops as
foreseen, and where it comes to its end something can be said of the module. -/
def Obeys (s : Setting) (scope : Scope) (C : Module → Manifest → Prop)
    (call : Module → Linking Unit) : Prop :=
  ∀ m, Met s scope m → ∀ σ r τ, Runs (call m) σ r τ →
    Steps s scope σ τ ∧ (r = .ok () → C m τ) ∧ ∀ stop, r = .error stop → Foreseen s scope stop

/-- What a part of linking is made of, from a manifest on. -/
inductive Plan (s : Setting) (scope : Scope) (C : Module → Manifest → Prop) :
    Manifest → {α : Type} → ((Module → Linking Unit) → Linking α) → Prop
  | perform {α : Type} {σ : Manifest} {e : Except Fault α}
      (he : ∀ f, e = .error f → Origin s scope f) : Plan s scope C σ fun _ => perform e
  | act {σ : Manifest} {f : Manifest → Manifest} (hstep : Step s scope σ (f σ))
      (hstill : (f σ).followed = σ.followed) : Plan s scope C σ fun _ => modify f
  | call {σ : Manifest} {m : Module} (hm : Met s scope m) : Plan s scope C σ fun call => call m
  | bind {α β : Type} {σ : Manifest} {x : (Module → Linking Unit) → Linking α}
      {f : (Module → Linking Unit) → α → Linking β} (hx : Plan s scope C σ x)
      (hf : ∀ call a ρ, Obeys s scope C call → Runs (x call) σ (.ok a) ρ →
        Plan s scope C ρ fun call => f call a) :
      Plan s scope C σ fun call => x call >>= f call

variable {C : Module → Manifest → Prop} {call : Module → Linking Unit} {α β : Type}

/-- **A run of a plan goes in steps, and stops as foreseen.** -/
theorem Plan.runs {x : (Module → Linking Unit) → Linking α} (h : Plan s scope C σ x)
    (hcall : Obeys s scope C call) {r : Except Stop α} (hrun : Runs (x call) σ r τ) :
    Steps s scope σ τ ∧ ∀ stop, r = .error stop → Foreseen s scope stop := by
  induction h generalizing τ with
  | perform he =>
    obtain ⟨rfl, rfl⟩ := runs_perform_iff.1 hrun
    refine ⟨.refl, fun stop hstop => ?_⟩
    obtain ⟨f, hf, rfl⟩ := mapError_eq_error_iff.1 hstop
    exact .inr ⟨f, rfl, he f hf⟩
  | act hstep =>
    obtain ⟨rfl, rfl⟩ := runs_modify_iff.1 hrun
    exact ⟨.single hstep, fun _ hstop => by cases hstop⟩
  | call hm =>
    obtain ⟨hsteps, -, hstops⟩ := hcall _ hm _ _ _ hrun
    exact ⟨hsteps, hstops⟩
  | bind hx hf ihx ihf =>
    rcases runs_bind_iff.1 hrun with ⟨a, ρ, hfirst, hrest⟩ | ⟨e, rfl, hfirst⟩
    · obtain ⟨hsteps, hstops⟩ := ihf call a ρ hcall hfirst hrest
      exact ⟨(ihx hfirst).1.trans hsteps, hstops⟩
    · grind

namespace Plan

theorem pure (a : α) : Plan s scope C σ fun _ => (pure a : Linking α) :=
  .perform (e := .ok a) fun f hf => by cases hf

theorem throw {f : Fault} (hf : Origin s scope f) :
    Plan s scope C σ fun _ => (throw (.fault f) : Linking α) :=
  .perform (e := .error f) fun g hg => by cases hg; exact hf

theorem perform_bind {e : Except Fault α} {f : (Module → Linking Unit) → α → Linking β}
    (he : ∀ f, e = .error f → Origin s scope f)
    (hf : ∀ a, e = .ok a → Plan s scope C σ fun call => f call a) :
    Plan s scope C σ fun call => Linker.perform e >>= f call := by
  refine .bind (.perform he) fun call a ρ _ hrun => ?_
  obtain ⟨he, rfl⟩ := runs_perform_ok_iff.1 hrun
  exact hf a he

theorem forM {l : List α} {f : (Module → Linking Unit) → α → Linking Unit}
    (hf : ∀ a ∈ l, ∀ ρ, Plan s scope C ρ fun call => f call a) :
    Plan s scope C σ fun call => l.forM (f call) := by
  induction l generalizing σ with
  | nil => exact .pure _
  | cons a l ih =>
    exact .bind (hf a List.mem_cons_self σ) fun _ _ _ _ _ =>
      ih fun b hb => hf b (List.mem_cons_of_mem _ hb)

theorem mapM {l : List α} {f : (Module → Linking Unit) → α → Linking β}
    (hf : ∀ a ∈ l, ∀ ρ, Plan s scope C ρ fun call => f call a) :
    Plan s scope C σ fun call => l.mapM (f call) := by
  induction l generalizing σ with
  | nil => exact .pure _
  | cons a l ih =>
    simp only [List.mapM_cons]
    exact .bind (hf a List.mem_cons_self σ) fun _ _ _ _ _ =>
      .bind (ih fun b hb => hf b (List.mem_cons_of_mem _ hb)) fun _ _ _ _ _ => .pure _

/-- Each element of a traversal had its turn, and steps have followed. -/
theorem exists_turn_of_forM {l : List α} {f : (Module → Linking Unit) → α → Linking Unit}
    (hf : ∀ a ∈ l, ∀ ρ, Plan s scope C ρ fun call => f call a) (hcall : Obeys s scope C call)
    (hrun : Runs (l.forM (f call)) σ (.ok ()) τ) {a : α} (ha : a ∈ l) :
    ∃ ρ ρ', Runs (f call a) ρ (.ok ()) ρ' ∧ Steps s scope ρ' τ := by
  induction l generalizing σ with
  | nil => cases ha
  | cons b l ih =>
    have hrest := fun c hc => hf c (List.mem_cons_of_mem b hc)
    obtain ⟨_, ρ, hfirst, hlast⟩ := runs_bind_ok_iff.1 hrun
    rcases List.mem_cons.1 ha with rfl | ha
    · exact ⟨σ, ρ, hfirst, ((forM hrest).runs hcall hlast).1⟩
    · exact ih hrest hlast ha

/-- Each result of a traversal came from a turn, and steps have followed. -/
theorem exists_turn_of_mapM {l : List α} {f : (Module → Linking Unit) → α → Linking β} {bs : List β}
    (hf : ∀ a ∈ l, ∀ ρ, Plan s scope C ρ fun call => f call a) (hcall : Obeys s scope C call)
    (hrun : Runs (l.mapM (f call)) σ (.ok bs) τ) {b : β} (hb : b ∈ bs) :
    ∃ a ∈ l, ∃ ρ ρ', Runs (f call a) ρ (.ok b) ρ' ∧ Steps s scope ρ' τ := by
  induction l generalizing σ bs with
  | nil =>
    cases (runs_pure_iff.1 hrun).1
    cases hb
  | cons a l ih =>
    have hrest := fun c hc => hf c (List.mem_cons_of_mem a hc)
    rw [List.mapM_cons] at hrun
    obtain ⟨first, ρ, hfirst, hrun⟩ := runs_bind_ok_iff.1 hrun
    obtain ⟨more, ρ', hmore, hrun⟩ := runs_bind_ok_iff.1 hrun
    obtain ⟨hbs, rfl⟩ := runs_pure_iff.1 hrun
    cases hbs
    rcases List.mem_cons.1 hb with rfl | hb
    · exact ⟨a, List.mem_cons_self, σ, ρ, hfirst, ((mapM hrest).runs hcall hmore).1⟩
    · grind

end Plan

/-! ## The plans of the parts -/

theorem plan_note (t : String) : Plan s scope C σ fun _ => note t := .act (.noted σ t) rfl

theorem plan_runSearch {x : Search α}
    (hx : ∀ f trail, Runs x {} (.error f) trail → Origin s scope f) :
    Plan s scope C σ fun _ => runSearch x :=
  .bind (plan_note _) fun _ _ _ _ _ => .perform_bind (fun f hf => hx f _ (Prod.ext hf rfl))
    fun _ _ => .pure _

theorem plan_openModule (hm : Met s scope m) : Plan s scope C σ fun _ => openModule s m := by
  unfold openModule enterFiles readRequirements
  split
  · exact .throw (.relative hm ‹_›)
  · refine .bind (.bind (.act (.claimed σ hm) (σ.followed_claimed _)) fun _ _ ρ _ _ =>
      .perform_bind (fun _ => .file hm List.mem_cons_self) fun source hsource =>
      .bind (.act (.source ρ hm hsource) rfl) fun _ _ ρ' _ _ => ?_) fun _ _ ρ _ _ =>
      .perform_bind (fun _ => .lines hm) fun lines _ => ?_
    · split
      · exact .pure _
      · rename_i page hpage
        refine .perform_bind (fun _ => .file hm ?_) fun _ _ => .act (.page ρ' hm) rfl
        rw [hpage]
        exact List.mem_cons_of_mem _ (List.mem_singleton.2 rfl)
    · split
      · exact .bind (plan_note _) fun _ _ _ _ _ => .throw .chrome
      · exact .pure _

theorem plan_require {r : Requirement} (hm : Met s scope m) (hasks : Asks s m name line)
    (hstands : StandsFor s m name line (some r))
    (hreached : ∀ q, r = .place q → ∃ other ∈ σ.followed, other.toPlace = q) :
    Plan s scope C σ fun _ => require_ m.toPlace name r :=
  .act (.required σ hm hasks hstands hreached) rfl

theorem plan_handleMissing {lookedIn : List String} (hm : Met s scope m)
    (hasks : Asks s m name line) (hfree : isProvided name = false)
    (hmeans : Means s m name line none) :
    Plan s scope C σ fun _ => handleMissing s m name line lookedIn := by
  unfold handleMissing
  split
  · exact .pure _
  · rename_i hkept
    rw [Bool.or_eq_true, decide_eq_true_eq, not_or, Bool.not_eq_true] at hkept
    split
    · refine .bind (plan_note _) fun _ _ _ _ _ => ?_
      exact plan_require hm hasks (.missing hfree hmeans hkept.1 hkept.2) fun q hq => by cases hq
    · exact .throw (.notFound _)

/-- What can be said of a module that was reached. -/
abbrev Followed (m : Module) (τ : Manifest) : Prop := m ∈ τ.followed

theorem plan_settle {required : Requirements} (hm : Met s scope m)
    (hasked : asked? s m.file = some required)
    (hname : name ∈ sortedStrings (keys required)) (σ : Manifest) :
    Plan s scope Followed σ fun reach => settle s reach m required name := by
  obtain ⟨line, hline⟩ := mem_sortedStrings_keys.1 hname
  have hasks : Asks s m name line := ⟨required, hasked, hline⟩
  unfold settle
  cases hfree : isProvided name with
  | true => exact plan_require hm hasks (.provided hfree) fun q hq => by cases hq
  | false =>
    simp only [hline, Option.getD_some, Bool.false_eq_true, if_false]
    refine .bind (plan_runSearch fun f trail => .search hm hasks) ?_
    rintro - ⟨found, lookedIn⟩ ρ - hsearch
    obtain ⟨trail, hfound, -⟩ := runs_runSearch_ok hsearch
    cases found with
    | none => exact plan_handleMissing hm hasks hfree ⟨trail, hfound⟩
    | some other =>
      have hmet : Met s scope other := .asked hm hasks hfree ⟨trail, hfound⟩
      refine .bind (.call hmet) fun reach _ ρ' hreach hrun => ?_
      refine plan_require hm hasks (.found hfree ⟨trail, hfound⟩) fun q hq => ?_
      cases hq
      exact ⟨other, (hreach other hmet _ _ _ hrun).2.1 rfl, rfl⟩

theorem plan_linkModule (hm : Met s scope m) :
    Plan s scope Followed σ fun reach => linkModule s reach m :=
  .bind (plan_openModule hm) fun _ _ _ _ hopen =>
    .forM fun _ hname => plan_settle hm (runs_openModule hopen).2 hname

theorem runs_enterFiles (hrun : Runs (enterFiles s m) σ (.ok ()) τ) :
    τ.Holds m.toPlace ∧ (τ.entry m.toPlace).source.isSome ∧ τ.followed = σ.followed := by
  obtain ⟨_, _, hclaim, hrun⟩ := runs_bind_ok_iff.1 hrun
  obtain ⟨-, rfl⟩ := runs_claim_iff.1 hclaim
  obtain ⟨source, _, hsource, hrun⟩ := runs_bind_ok_iff.1 hrun
  obtain ⟨-, rfl⟩ := runs_perform_ok_iff.1 hsource
  obtain ⟨_, ρ, hupdate, hrun⟩ := runs_bind_ok_iff.1 hrun
  obtain ⟨-, rfl⟩ := runs_updateEntry_iff.1 hupdate
  have hfollowed := σ.followed_claimed m.toPlace
  split at hrun
  · obtain ⟨-, rfl⟩ := runs_pure_iff.1 hrun
    refine ⟨(Manifest.holds_update _ _ _ _).2 (.inl rfl), ?_, hfollowed⟩
    rw [Manifest.entry_update, if_pos rfl]
    rfl
  · obtain ⟨page, _, hpage, hrun⟩ := runs_bind_ok_iff.1 hrun
    obtain ⟨-, rfl⟩ := runs_perform_ok_iff.1 hpage
    obtain ⟨-, rfl⟩ := runs_updateEntry_iff.1 hrun
    refine ⟨(Manifest.holds_update _ _ _ _).2 (.inl rfl), ?_, hfollowed⟩
    rw [Manifest.entry_update, if_pos rfl, Manifest.entry_update, if_pos rfl]
    rfl

/-- Linking a module enters its files, and then goes on in steps. -/
theorem runs_linkModule {reach : Module → Linking Unit} (hreach : Obeys s scope Followed reach)
    (hm : Met s scope m) (hrun : Runs (linkModule s reach m) σ (.ok ()) τ) :
    ∃ required ρ, asked? s m.file = some required ∧ Runs (enterFiles s m) σ (.ok ()) ρ ∧
      Runs ((sortedStrings (keys required)).forM (settle s reach m required)) ρ (.ok ()) τ ∧
      Grows ρ τ := by
  obtain ⟨required, ρ, hopen, hrun⟩ := runs_bind_ok_iff.1 hrun
  obtain ⟨henter, hasked⟩ := runs_openModule hopen
  have hplan : Plan s scope Followed ρ fun reach =>
      (sortedStrings (keys required)).forM (settle s reach m required) :=
    .forM fun _ hname => plan_settle hm hasked hname
  exact ⟨required, ρ, hasked, henter, hrun, (hplan.runs hreach hrun).1.grows⟩

theorem obeys_reach {follow : Module → Linking Unit} (h : Obeys s scope C follow) :
    Obeys s scope Followed (reach follow) := by
  intro m hm σ r τ hrun
  rw [runs_reach_iff] at hrun
  split at hrun
  · grind
  · rename_i hnew
    obtain ⟨hsteps, -, hstops⟩ := h m hm _ r τ hrun
    refine ⟨.head (.reached σ hm hnew) hsteps, fun _ => ?_, hstops⟩
    exact hsteps.grows.followed.subset (List.mem_append_right _ (List.mem_singleton.2 rfl))

/-- What can be said of a module that was followed. -/
abbrev Held (m : Module) (τ : Manifest) : Prop := τ.Holds m.toPlace

theorem obeys_follow (s : Setting) (scope : Scope) (depth : Nat) :
    Obeys s scope Held (follow s depth) := by
  induction depth with
  | zero =>
    intro m _ σ r τ hrun
    obtain ⟨rfl, rfl⟩ := runs_throw_iff.1 hrun
    exact ⟨.refl, fun hr => (by cases hr), fun _ hstop => (by cases hstop; exact .inl rfl)⟩
  | succ depth ih =>
    intro m hm σ r τ hrun
    have hreach := obeys_reach ih
    obtain ⟨hsteps, hstops⟩ := (plan_linkModule hm).runs hreach hrun
    refine ⟨hsteps, ?_, hstops⟩
    rintro rfl
    obtain ⟨_, ρ, -, henter, -, hgrows⟩ := runs_linkModule hreach hm hrun
    exact hgrows.holds _ (runs_enterFiles henter).1

/-- After the main module its path and the data files are written down. -/
theorem plan_afterMain (path : String) : Plan s scope C σ fun _ => (do
    modify fun x => { x with top := some path }
    let name ← perform (fromPackage (Package.name s.target))
    let data ← perform (dataFiles s s.target)
    modify fun x => { x with data := insert x.data name data }) :=
  .bind (.act (.top σ path) rfl) fun _ _ ρ _ _ => .perform_bind (fun _ => .name) fun name _ =>
    .perform_bind (fun _ => .data) fun _ hd => .act (.data ρ name hd) rfl

theorem plan_linkMain : Plan s scope Held σ fun follow => linkMain s follow := by
  unfold linkMain
  cases hmain : get? s.target "main" with
  | none => exact .pure _
  | some main =>
    exact .perform_bind (fun _ => .main hmain) fun m htop =>
      .bind (.call (.start (.main hmain htop))) fun _ _ _ _ _ => plan_afterMain m.path

/-- Tests are named to the module that finds them when they have their entries. -/
theorem plan_nameTests {tests : List Module} (htests : ∀ m ∈ tests, ScannedTest s scope m)
    (hheld : ∀ m ∈ tests, σ.Holds m.toPlace) :
    Plan s scope C σ fun _ => (tests.forM fun m => do
      require_ testFinder m.name (.place m.toPlace)
      modify fun x => { x with tests := x.tests ++ [m.path] }) := by
  induction tests generalizing σ with
  | nil => exact .pure _
  | cons m tests ih =>
    have hfirst : Plan s scope C σ fun _ =>
        require_ testFinder m.name (.place m.toPlace) >>= fun _ =>
          modify fun x => { x with tests := x.tests ++ [m.path] } :=
      .bind (.act (.test σ (htests m List.mem_cons_self) (hheld m List.mem_cons_self)) rfl)
        fun _ _ ρ _ _ => .act (.listed ρ _) rfl
    refine .bind hfirst fun call _ ρ hcall hrun =>
      ih (fun m' hm' => htests m' (List.mem_cons_of_mem _ hm')) fun m' hm' => ?_
    exact (hfirst.runs hcall hrun).1.grows.holds _ (hheld m' (List.mem_cons_of_mem _ hm'))

theorem plan_linkTests (htests : scope.tests) :
    Plan s scope Held σ fun follow => linkTests s scope.filter follow := by
  have hfault : ∀ {α : Type} {e : Except Fault α} f, e = .error f → Origin s scope f :=
    fun f _ => .tests f htests
  unfold linkTests
  refine .bind (plan_runSearch fun f _ _ => .tests f htests) ?_
  rintro - ⟨runner, lookedIn⟩ ρ - hsearch
  obtain ⟨trail, hrunner, -⟩ := runs_runSearch_ok hsearch
  refine .bind (.call (.start (.runner htests ⟨trail, hrunner⟩))) fun _ _ ρ₁ _ _ =>
    .perform_bind hfault fun dirs hdirs => .perform_bind hfault fun pkg hpkg => ?_
  have hscanned : ∀ dir ∈ dirs, ∀ tests, testsIn s scope.filter pkg.display dir = .ok tests →
      ∀ m ∈ tests, ScannedTest s scope m := by
    intro dir hdir tests hlist m hm
    exact ⟨htests, dirs, pkg, dir, tests, hdirs, hpkg, hdir, hlist, hm⟩
  have hdir : ∀ dir ∈ dirs, ∀ ρ, Plan s scope Held ρ fun follow => (do
      let tests ← perform (testsIn s scope.filter pkg.display dir)
      tests.forM follow
      return tests) := by
    intro dir hmem ρ
    refine .perform_bind hfault fun tests hlist => ?_
    refine .bind (.forM fun m hm ρ' => .call ?_) fun _ _ _ _ _ => .pure _
    exact (hscanned dir hmem tests hlist m hm).met
  refine .bind (.mapM hdir) fun follow lists ρ₂ hfollow hlists => ?_
  -- The tests of each directory were followed, and no entry is taken back.
  have hheld : ∀ m ∈ lists.flatten, ScannedTest s scope m ∧ ρ₂.Holds m.toPlace := by
    intro m hm
    obtain ⟨tests, hmem, hm⟩ := List.mem_flatten.1 hm
    obtain ⟨dir, hin, ρ₃, ρ₄, hturn, hsteps⟩ := Plan.exists_turn_of_mapM hdir hfollow hlists hmem
    obtain ⟨tests', ρ₅, hperform, hrest⟩ := runs_bind_ok_iff.1 hturn
    obtain ⟨hlist, -⟩ := runs_perform_ok_iff.1 hperform
    obtain ⟨_, ρ₆, hforM, hlast⟩ := runs_bind_ok_iff.1 hrest
    obtain ⟨hsame, rfl⟩ := runs_pure_iff.1 hlast
    cases hsame
    have htest := hscanned dir hin tests hlist
    obtain ⟨ρ₇, ρ₈, hrun, hsteps'⟩ := Plan.exists_turn_of_forM
      (f := fun follow => follow) (fun m' hm' _ => .call (htest m' hm').met) hfollow hforM hm
    have hgrows : Grows ρ₈ ρ₂ := Steps.grows (hsteps'.trans hsteps)
    exact ⟨htest m hm, hgrows.holds _ ((hfollow m (htest m hm).met _ _ _ hrun).2.1 rfl)⟩
  refine .bind (.act (.finder ρ₂ htests) (ρ₂.followed_claimed _)) fun _ _ ρ₃ _ hclaim => ?_
  refine plan_nameTests (fun m hm => (hheld m hm).1) fun m hm => ?_
  rw [(runs_claim_iff.1 hclaim).2]
  exact (grows_claimed ρ₂ testFinder).holds _ (hheld m hm).2

theorem plan_linkExtra {x : ExtraModule} (hx : x ∈ scope.extra) :
    Plan s scope Held σ fun follow => linkExtra s follow x :=
  .perform_bind (fun _ => .extra hx) fun _ hm => .call (.start (.extra hx hm))

theorem plan_linkExtras (s : Setting) (scope : Scope) (σ : Manifest) :
    Plan s scope Held σ fun follow => scope.extra.forM (linkExtra s follow) :=
  .forM fun _ hx _ => plan_linkExtra hx

theorem plan_linkAll (s : Setting) (scope : Scope) (σ : Manifest) :
    Plan s scope Held σ fun follow => linkAll s scope follow := by
  refine .bind plan_linkMain fun _ _ ρ _ _ => ?_
  cases htests : scope.tests with
  | false => exact plan_linkExtras s scope ρ
  | true => exact .bind (plan_linkTests htests) fun _ _ ρ' _ _ => plan_linkExtras s scope ρ'

section Whole

variable {depth : Nat} {r : Except Stop Unit} (hlink : link s scope depth = (r, σ))

include hlink

/-- **Linking goes in steps**, also if it fails. -/
theorem link_steps : Steps s scope {} σ :=
  ((plan_linkAll s scope {}).runs (obeys_follow s scope depth) hlink).1

/-- Linking stops only for a foreseen reason. -/
theorem link_foreseen {stop : Stop} (hstop : r = .error stop) : Foreseen s scope stop :=
  ((plan_linkAll s scope {}).runs (obeys_follow s scope depth) hlink).2 stop hstop

end Whole

end AddonBuilder.Linker
