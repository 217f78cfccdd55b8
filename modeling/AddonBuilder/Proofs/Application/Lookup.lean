import AddonBuilder.Application.Runner
import AddonBuilder.Proofs.Session.Outcome

/-!
# Looking a program up

A program is meant by the first of its names that some directory of the search path has, in the
first directory that has it (`Preferred`).
-/

namespace AddonBuilder.Application

open List Session Option

variable {f : Files} {platform name first path : String} {dirs names others : List String}

/-- A program is the one under a name in the first directory that has it. -/
def FirstIn (f : Files) (dirs : List String) (name path : String) : Prop :=
  ∃ before d after, dirs = before ++ d :: after ∧ path = Path.join d name ∧
    f.isFile path = true ∧ ∀ d' ∈ before, f.isFile (Path.join d' name) = false

/-- A file of that name stands in one of the directories. -/
def OnPath (f : Files) (dirs : List String) (name : String) : Prop :=
  ∃ d ∈ dirs, f.isFile (Path.join d name) = true

/-- The program that is meant by names in the order of preference. -/
def Preferred (f : Files) (dirs names : List String) (path : String) : Prop :=
  ∃ before name after, names = before ++ name :: after ∧ FirstIn f dirs name path ∧
    ∀ n ∈ before, ¬ OnPath f dirs n

theorem FirstIn.onPath (h : FirstIn f dirs name path) : OnPath f dirs name := by
  obtain ⟨before, d, after, rfl, rfl, hfile, -⟩ := h
  exact ⟨d, by simp, hfile⟩

theorem findProgram?_eq_some_iff (hplatform : platform ≠ "cygwin") :
    findProgram? f platform dirs name = some path ↔ FirstIn f dirs name path := by
  have hcandidate : ∀ d, ([name].map (Path.join d)).find? f.isFile =
      if f.isFile (Path.join d name) then some (Path.join d name) else none := by
    intro d
    rw [map_cons, map_nil, find?_singleton]
  simp only [findProgram?, hplatform, if_false, hcandidate, findSome?_eq_some_iff, FirstIn,
    ite_eq_right_iff, ite_none_right_eq_some, reduceCtorEq, imp_false, Bool.not_eq_true,
    some.injEq]
  constructor
  · grind
  · grind

theorem findProgram?_isSome_iff (hplatform : platform ≠ "cygwin") :
    (findProgram? f platform dirs name).isSome ↔ OnPath f dirs name := by
  simp only [findProgram?, hplatform, if_false, findSome?_isSome_iff, OnPath, map_cons, map_nil,
    find?_isSome, mem_singleton, exists_eq_left]

/-- **The preferred name alone decides.** -/
theorem findOnPath?_eq (names : List String) : findOnPath? f platform dirs names =
    names.head?.bind (findProgram? f platform dirs) := by
  cases names with
  | nil => rfl
  | cons first others => simp [findOnPath?]

theorem findOnPath?_eq_some_iff (hplatform : platform ≠ "cygwin") :
    findOnPath? f platform dirs (first :: others) = some path ↔ FirstIn f dirs first path := by
  rw [findOnPath?_eq, head?_cons, bind_some, findProgram?_eq_some_iff hplatform]

theorem findOnPath?_eq_none_iff (hplatform : platform ≠ "cygwin") :
    findOnPath? f platform dirs (first :: others) = none ↔ ¬ OnPath f dirs first := by
  rw [findOnPath?_eq, head?_cons, bind_some, ← findProgram?_isSome_iff hplatform,
    not_isSome_iff_eq_none]

theorem exists_firstIn (h : OnPath f dirs name) : ∃ path, FirstIn f dirs name path := by
  obtain ⟨path, hpath⟩ := isSome_iff_exists.1
    ((findProgram?_isSome_iff (show "linux2" ≠ "cygwin" by decide)).2 h)
  exact ⟨path, (findProgram?_eq_some_iff (by decide)).1 hpath⟩

theorem preferred_cons_iff : Preferred f dirs (first :: others) path ↔
    FirstIn f dirs first path ∨ ¬ OnPath f dirs first ∧ Preferred f dirs others path := by
  constructor
  · rintro ⟨before, name, after, hsplit, hpath, hbefore⟩
    cases before with
    | nil =>
      obtain ⟨rfl, -⟩ := cons.inj hsplit
      exact .inl hpath
    | cons n before =>
      obtain ⟨rfl, hothers⟩ := cons.inj hsplit
      obtain ⟨hn, hbefore⟩ := forall_mem_cons.1 hbefore
      exact .inr ⟨hn, before, name, after, hothers, hpath, hbefore⟩
  · rintro (hpath | ⟨hfirst, before, name, after, rfl, hpath, hbefore⟩)
    · exact ⟨[], first, others, rfl, hpath, forall_mem_nil _⟩
    · exact ⟨first :: before, name, after, rfl, hpath, forall_mem_cons.2 ⟨hfirst, hbefore⟩⟩

theorem exists_preferred_iff :
    (∃ path, Preferred f dirs names path) ↔ ∃ n ∈ names, OnPath f dirs n := by
  induction names with
  | nil => simp [Preferred]
  | cons first others ih =>
    simp only [preferred_cons_iff, exists_or, exists_and_left, ih, mem_cons, exists_eq_or_imp]
    constructor
    · rintro (⟨path, hpath⟩ | ⟨-, hothers⟩)
      · exact .inl hpath.onPath
      · exact .inr hothers
    · intro h
      by_cases hfirst : OnPath f dirs first
      · exact .inl (exists_firstIn hfirst)
      · exact .inr ⟨hfirst, h.resolve_left hfirst⟩

theorem ne_cygwin_of_isUnix (h : Product.isUnix platform) : platform ≠ "cygwin" := by
  rintro rfl
  exact absurd h (by decide)

theorem outcome_findBinary {s : Session} {p : Product} (hunix : Product.isUnix s.platform)
    (hnames : p.names? s.platform = some names) :
    outcome (findBinary p) s =
      ((findOnPath? s.files s.platform s.searchPath names).elim
        (.error (.failed (.general noProgram))) .ok, s) := by
  have hplatform := ne_cygwin_of_isUnix hunix
  rw [findBinary, outcome_bind_ok (show outcome get s = (.ok s, s) from rfl)]
  simp only [hnames, hplatform, hunix, if_false, if_true, getD_some]
  cases findOnPath? s.files s.platform s.searchPath names <;> rfl

/-- **A program is found under its preferred name alone.**  It is then the one that is meant.  If no
directory has the preferred name, the search fails; so the program that is meant is found, and
failure means that there is none, if and only if some directory has the preferred name or none has
any other. -/
theorem findBinary_finds {s : Session} (hunix : Product.isUnix s.platform = true) (first : String)
    (others : List String) :
    let found := findOnPath? s.files s.platform s.searchPath (first :: others)
    (∀ p : Product, p.names? s.platform = some (first :: others) → outcome (findBinary p) s =
      (found.elim (.error (.failed (.general noProgram))) .ok, s)) ∧
    (∀ path, found = some path ↔ FirstIn s.files s.searchPath first path) ∧
    (found = none ↔ ¬ OnPath s.files s.searchPath first) ∧
    ((∀ path, found = some path ↔ Preferred s.files s.searchPath (first :: others) path) ↔
      OnPath s.files s.searchPath first ∨ ∀ n ∈ others, ¬ OnPath s.files s.searchPath n) := by
  have hplatform := ne_cygwin_of_isUnix hunix
  intro found
  refine ⟨fun p hp => outcome_findBinary hunix hp, fun _ => findOnPath?_eq_some_iff hplatform,
    findOnPath?_eq_none_iff hplatform, ⟨fun h => ?_, fun h path => ?_⟩⟩
  · by_cases hfirst : OnPath s.files s.searchPath first
    · exact .inl hfirst
    · refine .inr fun n hn honPath => ?_
      obtain ⟨path, hpath⟩ := exists_preferred_iff.2 ⟨n, hn, honPath⟩
      have hfound := (h path).2 (preferred_cons_iff.2 (.inr ⟨hfirst, hpath⟩))
      exact hfirst ((findOnPath?_eq_some_iff hplatform).1 hfound).onPath
  · rw [findOnPath?_eq_some_iff hplatform, preferred_cons_iff]
    refine ⟨.inl, fun hpath => hpath.resolve_right fun ⟨hfirst, hothers⟩ => ?_⟩
    obtain ⟨n, hn, honPath⟩ := exists_preferred_iff.1 ⟨path, hothers⟩
    exact h.resolve_left hfirst n hn honPath

/-- A computer with a mail program under its two names, in different directories. -/
def mailSession : Session :=
  { files := { tree := [(["a"], .dir), (["b"], .dir), (["a", "shredder"], .file []),
      (["b", "thunderbird"], .file [])] }
    searchPath := ["/a", "/b"], platform := "linux2" }

/-- The first name goes before the first directory of the search path. -/
theorem findBinary_finds_mail :
    outcome (findBinary .thunderbird) mailSession = (.ok "/b/thunderbird", mailSession) ∧
    Preferred mailSession.files mailSession.searchPath ["thunderbird", "shredder"]
      "/b/thunderbird" := by
  obtain ⟨hbinary, hfound, -, hmeant⟩ :=
    findBinary_finds (s := mailSession) rfl "thunderbird" ["shredder"]
  have hfirst : FirstIn mailSession.files mailSession.searchPath "thunderbird" "/b/thunderbird" :=
    ⟨["/a"], "/b", [], rfl, by decide, by decide, by decide⟩
  have hpath := (hfound _).2 hfirst
  rw [hbinary .thunderbird rfl, hpath]
  exact ⟨rfl, (hmeant.2 (.inl hfirst.onPath) _).1 hpath⟩

/-- A computer on which the browser has its third name only. -/
def renamedSession : Session :=
  { files := { tree := [(["b"], .dir), (["b", "iceweasel"], .file [])] }
    searchPath := ["/a", "/b"], platform := "linux2" }

/-- **The browser is not found under its third name.** -/
theorem iceweasel_not_found : Preferred renamedSession.files renamedSession.searchPath
      ["firefox", "mozilla-firefox", "iceweasel"] "/b/iceweasel" ∧
    outcome (findBinary .firefox) renamedSession =
      (.error (.failed (.general noProgram)), renamedSession) := by
  refine ⟨⟨["firefox", "mozilla-firefox"], "iceweasel", [], rfl,
    ⟨["/a"], "/b", [], rfl, by decide, by decide, by decide⟩, ?_⟩, ?_⟩
  · unfold OnPath
    decide
  · rw [outcome_findBinary (s := renamedSession) (p := .firefox) rfl rfl]
    rfl

end AddonBuilder.Application
