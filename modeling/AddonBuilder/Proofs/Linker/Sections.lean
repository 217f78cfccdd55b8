import AddonBuilder.Proofs.Linker.Contents
import AddonBuilder.Proofs.Linker.Search
import AddonBuilder.Proofs.Package.Discovery
import AddonBuilder.Proofs.Text.Utf8

/-!
# Where requirements lead

A requirement that leads to a module was entered for one of two reasons (`Route`): the module is
meant by a name that another one asks for, or it is a test and the entry is that of the module which
finds tests.
-/

namespace AddonBuilder.Linker

open Json List

variable {m user : Module} {name : String} {line : Option Nat}

/-- Why a requirement leads from an entry to a place. -/
inductive Route (s : Setting) (scope : Scope) : Place → String → Place → Prop
  | asked {m other : Module} {name : String} {line : Option Nat} (hm : Met s scope m)
      (hasks : Asks s m name line) (hfree : isProvided name = false)
      (hmeans : Means s m name line (some other)) :
      Route s scope m.toPlace name other.toPlace
  | test {m : Module} (hm : ScannedTest s scope m) : Route s scope testFinder m.name m.toPlace

theorem StandsFor.route {s : Setting} {scope : Scope}
    {q : Place} (h : StandsFor s m name line (some (.place q)))
    (hm : Met s scope m) (hasks : Asks s m name line) : Route s scope m.toPlace name q := by
  cases h with
  | found hfree hmeans => exact .asked hm hasks hfree hmeans

/-- Followed modules have entries, and requirements lead to entries along routes. -/
structure Routed (s : Setting) (scope : Scope) (σ : Manifest) : Prop where
  followed : ∀ m ∈ σ.followed, σ.Holds m.toPlace
  required : ∀ p e name q, (p, e) ∈ σ.entries → (name, .place q) ∈ e.requirements →
    σ.Holds q ∧ Route s scope p name q

section Entries

variable {σ : Manifest} {p q : Place} {e : Entry}

theorem mem_entries_claimed (h : (q, e) ∈ (σ.claimed p).entries) : e = {} ∨ (q, e) ∈ σ.entries := by
  unfold Manifest.claimed at h
  split at h
  · exact .inr h
  · rcases Assoc.mem_of_mem_insert h with hnew | hold
    · exact .inl (Prod.mk.inj hnew).2
    · exact .inr hold

theorem mem_entries_update {f : Entry → Entry} (h : (q, e) ∈ (σ.update p f).entries) :
    (q = p ∧ e = f (σ.entry p)) ∨ (q, e) ∈ σ.entries := by
  rcases Assoc.mem_of_mem_insert h with hnew | hold
  · exact .inl (Prod.mk.inj hnew)
  · exact .inr hold

theorem mem_of_mem_requirements_entry {x : String × Requirement}
    (h : x ∈ (σ.entry p).requirements) : ∃ e, (p, e) ∈ σ.entries ∧ x ∈ e.requirements := by
  unfold Manifest.entry at h
  cases hget : Assoc.get? σ.entries p with
  | none =>
    rw [hget] at h
    cases h
  | some e =>
    rw [hget] at h
    exact ⟨e, Assoc.mem_of_get? hget, h⟩

end Entries

namespace Routed

variable {s : Setting} {scope : Scope} {σ τ : Manifest}

theorem claimed (h : Routed s scope σ) (p : Place) : Routed s scope (σ.claimed p) := by
  have hgrows := grows_claimed σ p
  refine ⟨fun m hm => hgrows.holds _ (h.followed m (by rwa [σ.followed_claimed] at hm)), ?_⟩
  intro q e name q' he hname
  rcases mem_entries_claimed he with rfl | hold
  · cases hname
  · obtain ⟨hheld, hroute⟩ := h.required q e name q' hold hname
    exact ⟨hgrows.holds _ hheld, hroute⟩

theorem update (h : Routed s scope σ) {p : Place} {f : Entry → Entry}
    (hf : ∀ e, (f e).requirements = e.requirements) : Routed s scope (σ.update p f) := by
  have hholds : ∀ q, σ.Holds q → (σ.update p f).Holds q :=
    fun q hq => (σ.holds_update p q f).2 (.inr hq)
  refine ⟨fun m hm => hholds _ (h.followed m hm), ?_⟩
  intro q e name q' he hname
  rcases mem_entries_update he with ⟨rfl, rfl⟩ | hold
  · rw [hf] at hname
    obtain ⟨e, he, hname⟩ := mem_of_mem_requirements_entry hname
    obtain ⟨hheld, hroute⟩ := h.required q e name q' he hname
    exact ⟨hholds _ hheld, hroute⟩
  · obtain ⟨hheld, hroute⟩ := h.required q e name q' hold hname
    exact ⟨hholds _ hheld, hroute⟩

/-- A requirement may be entered if it leads to an entry along a route. -/
theorem require (h : Routed s scope σ) {p : Place} {n : String} {r : Requirement}
    (hr : ∀ q, r = .place q → σ.Holds q ∧ Route s scope p n q) :
    Routed s scope (σ.required p n r) := by
  have hholds := (grows_required σ p n r).holds
  refine ⟨fun m hm => hholds _ (h.followed m hm), ?_⟩
  intro q e name q' he hname
  rcases mem_entries_update he with ⟨rfl, rfl⟩ | hold
  · rcases Assoc.mem_of_mem_insert hname with hnew | hname
    · grind
    · obtain ⟨e, he, hname⟩ := mem_of_mem_requirements_entry hname
      obtain ⟨hheld, hroute⟩ := h.required q e name q' he hname
      exact ⟨hholds _ hheld, hroute⟩
  · obtain ⟨hheld, hroute⟩ := h.required q e name q' hold hname
    exact ⟨hholds _ hheld, hroute⟩

/-- **Every step of linking keeps requirements on their routes.** -/
theorem step (hstep : Step s scope σ τ) (h : Routed s scope σ) : Routed s scope τ := by
  cases hstep with
  | noted | top | data | listed => exact ⟨h.followed, h.required⟩
  | claimed | finder => exact h.claimed _
  | source | page => exact h.update fun _ => rfl
  | @reached m _ _ =>
    have hclaimed := h.claimed m.toPlace
    refine ⟨fun m' hm' => ?_, hclaimed.required⟩
    rcases mem_append.1 hm' with hm' | hm'
    · exact (grows_reached σ m).holds _ (h.followed m' hm')
    · rw [mem_singleton.1 hm']
      exact (σ.holds_claimed _ _).2 (.inl rfl)
  | required hm hasks hstands hreached =>
    refine h.require fun q hq => ?_
    subst hq
    obtain ⟨other, hfollowed, hplace⟩ := hreached q rfl
    exact ⟨hplace ▸ h.followed other hfollowed, hstands.route hm hasks⟩
  | test hm hheld =>
    refine h.require fun q hq => ?_
    cases hq
    exact ⟨hheld, .test hm⟩

end Routed

theorem link_routed {s : Setting} {scope : Scope} {depth : Nat} {r : Except Stop Unit}
    {σ : Manifest} (hlink : link s scope depth = (r, σ)) : Routed s scope σ :=
  (link_steps hlink).invariant (fun _ _ => Routed.step)
    ⟨forall_mem_nil _, fun _ _ _ _ he => by cases he⟩

section Routes

variable {s : Setting} {scope : Scope}

theorem Means.section_eq
    (h : Means s user name line (some m)) (huser : user.sec = "lib") : m.sec = "lib" := by
  obtain ⟨sections, hvisible, hlocated⟩ := h.leads
  have hlib : sections = ["lib"] := by
    rw [visibleSections, if_neg (by rw [huser]; decide), if_pos huser] at hvisible
    exact (Except.ok.inj hvisible).symm
  have hin : ∀ {n : String} {owner : Text}, Located s sections n owner m → m.sec = "lib" := by
    intro n owner hm
    have hvisible := hm.visible
    rw [hlib] at hvisible
    exact mem_singleton.1 hvisible
  rcases hlocated with ⟨-, inside, -, hm⟩ | ⟨-, hmain | ⟨n, -, owner, hm⟩⟩
  · exact hin hm
  · cases hmain
    rfl
  · exact hin hm

theorem Means.package_eq (h : Means s user name line (some m)) (hfiled : Package.Filed s.pkgs)
    (hname : isRelative name) : m.pkg = user.pkg := by
  obtain ⟨sections, -, ⟨-, inside, -, hm⟩ | ⟨hdirect, -⟩⟩ := h.leads
  · obtain ⟨cfg, root, owner, hcfg, -, howner, hpkg, -⟩ := hm.owned
    rw [hpkg, hfiled _ cfg owner hcfg howner, Text.display_ofString]
  · rw [hname] at hdirect
    cases hdirect

theorem head_of_isRelative (h : isRelative name) : name.toList.head? = some '.' := by
  rw [isRelative, Bool.or_eq_true, Text.beginsWith_iff, Text.beginsWith_iff] at h
  rcases h with ⟨rest, rfl⟩ | ⟨rest, rfl⟩
  · rw [String.toList_append]
    rfl
  · rw [String.toList_append]
    rfl

theorem file_of_testsIn {filter pkg dir : String} {tests : List Module}
    (hlist : testsIn s filter pkg dir = .ok tests) (hm : m ∈ tests) :
    ∃ rest, m.name ++ ".js" = "test-" ++ rest := by
  unfold testsIn at hlist
  split at hlist
  · cases hlist
  · obtain ⟨file, hfile, htest⟩ := exists_of_mem_filterMapM hlist hm
    obtain ⟨rest, hrest⟩ := Text.beginsWith_iff.1 (mem_filter.1 hfile).2
    split at htest
    · cases htest
    · rename_i name hname
      obtain ⟨passed, -, htest⟩ := bind_ok_iff.1 htest
      split at htest
      · cases htest
      · cases htest
        exact ⟨rest, (Text.beforeEnd?_eq_some_iff.1 hname).symm.trans hrest⟩

theorem ScannedTest.isRelative_eq_false (h : ScannedTest s scope m) :
    isRelative m.name = false := by
  obtain ⟨-, dirs, pkg, dir, tests, -, -, -, hlist, hm⟩ := h
  obtain ⟨rest, hfile⟩ := file_of_testsIn hlist hm
  rw [← Bool.not_eq_true]
  intro hrel
  obtain ⟨more, hname⟩ := List.head?_eq_some_iff.1 (head_of_isRelative hrel)
  rw [← String.toList_inj, String.toList_append, String.toList_append, hname] at hfile
  exact absurd (List.cons.inj hfile).1 (by decide)

end Routes

/-- **Libraries do without tests.**  Every requirement that leads to a module leads to an entry.  From
an entry of a library it leads into a library, except that the module which finds tests has each test
under its name.  A relative name leads into the same package, if packages stand under their names, as
those do that are discovered. -/
theorem link_keeps_apart {s : Setting} {scope : Scope} {depth : Nat} {r : Except Stop Unit}
    {σ : Manifest} (hlink : link s scope depth = (r, σ)) {p q : Place} {e : Entry} {name : String}
    (he : (p, e) ∈ σ.entries) (hname : (name, .place q) ∈ e.requirements) :
    (∃ e', (q, e') ∈ σ.entries) ∧
      (p.sec = "lib" → q.sec = "lib" ∨
        p = testFinder ∧ ∃ m, ScannedTest s scope m ∧ m.name = name ∧ m.toPlace = q) ∧
      (Package.Filed s.pkgs → isRelative name = true → q.pkg = p.pkg) := by
  obtain ⟨hheld, hroute⟩ := (link_routed hlink).required p e name q he hname
  refine ⟨?_, fun hsection => ?_, fun hfiled hrel => ?_⟩
  · obtain ⟨e', he'⟩ := Option.isSome_iff_exists.1 hheld
    exact ⟨e', Assoc.mem_of_get? he'⟩
  · cases hroute with
    | asked hm hasks hfree hmeans => exact .inl (hmeans.section_eq hsection)
    | test hm => exact .inr ⟨rfl, _, hm, rfl, rfl⟩
  · cases hroute with
    | asked hm hasks hfree hmeans => exact hmeans.package_eq hfiled hrel
    | test hm =>
      rw [hm.isRelative_eq_false] at hrel
      cases hrel

def libraryConfig : Package.Config :=
  [("name", Value.str "addon-sdk"), ("root_dir", Value.str "/s"), ("lib", .array [Value.str "lib"])]

def testedConfig : Package.Config :=
  [("name", Value.str "tested"), ("root_dir", Value.str "/t"), ("lib", .array [Value.str "lib"]),
    ("tests", .array [Value.str "tests"]), ("main", Value.str "main"),
    ("dependencies", .array [Value.str "addon-sdk"])]

/-- A test that shares a module with the main module, and has a helper of its own. -/
def tested : Setting where
  files := {
    tree := [(["s"], .dir), (["s", "lib"], .dir), (["s", "lib", "sdk"], .dir),
      (["s", "lib", "sdk", "test"], .dir), (["t"], .dir), (["t", "lib"], .dir),
      (["t", "tests"], .dir), source ["s", "lib", "sdk", "test", "runner.js"] "",
      source ["t", "lib", "main.js"] "require('./part')", source ["t", "lib", "part.js"] "",
      source ["t", "tests", "test-part.js"] "require('./part');require('./helper')",
      source ["t", "tests", "helper.js"] ""] }
  target := testedConfig
  pkgs := [("tested", testedConfig), ("addon-sdk", libraryConfig)]
  available := []

theorem filed_tested : Package.Filed tested.pkgs := by
  have htarget : Package.name testedConfig = .ok (Text.ofString "tested") := rfl
  have hlibrary : Package.name libraryConfig = .ok (Text.ofString "addon-sdk") := rfl
  exact (Package.filed_nil.insert htarget).insert hlibrary

theorem link_tested :
    (link tested { tests := true } 3).1.isOk ∧
      (link tested { tests := true } 3).2.entries.map (fun x => (x.1, x.2.requirements)) =
        [(⟨"tested", "lib", "main"⟩, [("./part", .place ⟨"tested", "lib", "part"⟩)]),
          (⟨"tested", "lib", "part"⟩, []), (⟨"addon-sdk", "lib", "sdk/test/runner"⟩, []),
          (⟨"tested", "tests", "test-part"⟩, [("./helper", .place ⟨"tested", "tests", "helper"⟩),
            ("./part", .place ⟨"tested", "lib", "part"⟩)]),
          (⟨"tested", "tests", "helper"⟩, []),
          (testFinder, [("test-part", .place ⟨"tested", "tests", "test-part"⟩)])] := by
  decide +kernel

/-- The test is known to the module that finds tests, as a test and for no other reason. -/
theorem link_keeps_apart_tested :
    ∃ σ, link tested { tests := true } 3 = (.ok (), σ) ∧ Package.Filed tested.pkgs ∧
      (∃ e, (testFinder, e) ∈ σ.entries ∧
        ("test-part", .place ⟨"tested", "tests", "test-part"⟩) ∈ e.requirements) ∧
      ∃ m, ScannedTest tested { tests := true } m ∧ m.toPlace = ⟨"tested", "tests", "test-part"⟩ := by
  obtain ⟨hok, hentries⟩ := link_tested
  have hlink := ok_of_isOk hok
  have hfinder : (testFinder, [("test-part", .place ⟨"tested", "tests", "test-part"⟩)]) ∈
      (link tested { tests := true } 3).2.entries.map (fun x => (x.1, x.2.requirements)) := by
    rw [hentries]
    simp
  obtain ⟨⟨p, e⟩, he, heq⟩ := mem_map.1 hfinder
  obtain ⟨rfl, hrequired⟩ := Prod.mk.inj heq
  have hrequired : e.requirements =
      [("test-part", .place ⟨"tested", "tests", "test-part"⟩)] := hrequired
  refine ⟨_, hlink, filed_tested, ⟨e, he, by rw [hrequired]; exact mem_singleton.2 rfl⟩, ?_⟩
  obtain ⟨-, hapart, -⟩ := link_keeps_apart hlink he (hrequired ▸ mem_singleton.2 rfl)
  rcases hapart rfl with hlib | ⟨-, m, hm, -, hplace⟩
  · exact absurd hlib (by decide)
  · exact ⟨m, hm, hplace⟩

end AddonBuilder.Linker
