import AddonBuilder.Proofs.Linker.Search
import Mathlib.Data.Set.Finite.List

/-!
# Programs with straight names

A relative name is **straight** if it goes up first and then only down.
-/

namespace AddonBuilder.Linker

open Json Path List Set Package Assoc Text
open Package (Config)
open AddonBuilder.Path (Plain)

variable {given : Set String} {name : String} {s : Setting} {m : Module} {α : Type} {scope : Scope}

/-- A relative name that goes up first and then only down. -/
def Straight (name : String) : Prop :=
  ∀ n ∈ (names name).dropWhile fun n => n = "." || n = "..", Path.Plain n

instance (name : String) : Decidable (Straight name) :=
  inferInstanceAs (Decidable (∀ n ∈ _, Path.Plain n))

/-- A name that consists of the beginning of a given name and of plain names. -/
def Shaped (given : Set String) (name : String) : Prop :=
  ∃ i ∈ given, ∃ start way, start <+: names i ∧ (∀ n ∈ way, Path.Plain n) ∧
    names name = start ++ way

theorem shaped_of_mem (h : name ∈ given) : Shaped given name :=
  ⟨name, h, names name, [], prefix_rfl, nofun, by simp⟩

theorem names_way {given : String} (hdowns : downs (names given) ≠ []) :
    names (joinStrings "/" (way (names name).dropLast (names given))) =
      way (names name).dropLast (names given) := by
  apply names_joinStrings (append_ne_nil_of_right_ne_nil _ hdowns)
  intro n hn
  rcases mem_append.1 hn with hn | hn
  · exact not_mem_of_mem_names (mem_of_mem_dropLast (mem_of_mem_take hn))
  · exact not_mem_of_mem_names ((dropWhile_sublist _).subset hn)

theorem Shaped.relative {user : Module} {inside : String}
    (h : Shaped given user.name) (hstraight : Straight name)
    (hinside : relativeName user name = .ok inside) : Shaped given inside := by
  obtain ⟨i, hi, start, way', hstart, hplain, hnames⟩ := h
  unfold relativeName at hinside
  obtain ⟨steps, hclimb, htext⟩ := bind_ok_iff.1 hinside
  obtain rfl : joinStrings "/" steps = inside := pure_ok_iff.1 htext
  obtain ⟨rfl, hleft⟩ := climb_spec hclimb
  -- What is left of the user's name after going up is cut where its plain part begins.
  obtain ⟨k, hk⟩ : ∃ k, (names user.name).dropLast.take
      ((names user.name).dropLast.length - ups (names name)) = (start ++ way').take k :=
    ⟨_, by rw [dropLast_eq_take, take_take, hnames]⟩
  refine ⟨i, hi, start.take k, way'.take (k - start.length) ++ downs (names name),
    (List.take_prefix _ _).trans hstart, ?_, ?_⟩
  · intro n hn
    rcases mem_append.1 hn with hn | hn
    · exact hplain n (mem_of_mem_take hn)
    · exact hstraight n hn
  · rw [names_way hleft, way, hk, take_append, append_assoc]

/-! ## Finitely many names -/

theorem fileName_fst (name : String) :
    (fileName name).1 = name ∨ (fileName name).1 = name ++ ".js" := by
  unfold fileName
  split
  · exact .inl rfl
  · split
    · exact .inl rfl
    · exact .inr rfl

def ends (t : FileTree) : Set (List String) := {way | ∃ l ∈ keys t, way <:+ l}

def wayWithoutEnding (way : List String) : List String :=
  way.dropLast ++ [withoutEnding (way.getLastD "")]

theorem withoutEnding_append (name : String) : withoutEnding (name ++ ".js") = name := by
  rw [withoutEnding, beforeEnd?_eq_some_iff.2 rfl]
  rfl

theorem plain_append_js (name : String) : Plain (name ++ ".js") := by
  have hlen : 3 ≤ (name ++ ".js").length := by
    rw [String.length_append]
    exact Nat.le_add_left 3 _
  refine ⟨?_, ?_, ?_⟩ <;> intro h <;> rw [h] at hlen <;> revert hlen <;> decide

/-- The plain part of a name under which a file exists is the end of a location. -/
theorem mem_ends_of_contains {f : Files} {path : String} (hpath : f.contains path)
    (hname : names (fileName name).1 <:+ names path) {start way : List String}
    (hplain : ∀ n ∈ way, Path.Plain n) (hnames : names name = start ++ way) :
    way = [] ∨ way ∈ ends f.tree ∨ way ∈ wayWithoutEnding '' ends f.tree := by
  rcases eq_nil_or_concat' way with rfl | ⟨way, last, rfl⟩
  · exact .inl rfl
  right
  rcases fileName_fst name with hfile | hfile
  · left
    rw [hfile, hnames] at hname
    exact Files.exists_suffix_of_contains hpath (by simp) hplain ((suffix_append _ _).trans hname)
  · right
    obtain ⟨before, last', hbefore, hafter⟩ := names_append (t := ".js") (by decide) name
    rw [hnames, ← append_assoc] at hbefore
    obtain ⟨rfl, hlast⟩ := append_inj' hbefore rfl
    obtain rfl : last = last' := by simpa using hlast
    rw [hfile, hafter, append_assoc] at hname
    refine ⟨way ++ [last ++ ".js"], ?_, ?_⟩
    · refine Files.exists_suffix_of_contains hpath (by simp) ?_ ((suffix_append _ _).trans hname)
      intro n hn
      rcases mem_append.1 hn with hn | hn
      · exact hplain n (mem_append_left _ hn)
      · rw [mem_singleton.1 hn]
        exact plain_append_js last
    · simp [wayWithoutEnding, withoutEnding_append]

theorem finite_ends (t : FileTree) : (ends t).Finite := by
  have hfinite : (⋃ l ∈ {l | l ∈ keys t}, {way | way ∈ l.tails}).Finite :=
    (finite_toSet _).biUnion fun l _ => finite_toSet _
  refine hfinite.subset ?_
  rintro way ⟨l, hl, hway⟩
  exact mem_biUnion hl ((mem_tails _ _).2 hway)

/-- The names of a shape under which a file may exist. -/
def possibleNames (t : FileTree) (given : Set String) : Set String :=
  (fun x : List String × List String => joinStrings "/" (x.1 ++ x.2)) ''
    ({start | ∃ i ∈ given, start <+: names i} ×ˢ ({[]} ∪ ends t ∪ wayWithoutEnding '' ends t))

theorem finite_possibleNames (t : FileTree) (hgiven : given.Finite) :
    (possibleNames t given).Finite := by
  have hstarts : {start | ∃ i ∈ given, start <+: names i}.Finite := by
    have hfinite : (⋃ i ∈ given, {start | start ∈ (names i).inits}).Finite :=
      hgiven.biUnion fun i _ => finite_toSet _
    refine hfinite.subset ?_
    rintro start ⟨i, hi, hstart⟩
    exact mem_biUnion hi ((mem_inits _ _).2 hstart)
  have hends := finite_ends t
  exact (hstarts.prod (((finite_singleton _).union hends).union (hends.image _))).image _

theorem mem_possibleNames (hm : FoundIn s m)
    (hshape : Shaped given m.name) : m.name ∈ possibleNames s.files.tree given := by
  obtain ⟨i, hi, start, way, hstart, hplain, hnames⟩ := hshape
  refine ⟨(start, way), ⟨⟨i, hi, hstart⟩, ?_⟩, ?_⟩
  · cases hm with
    | intro hcfg hroot hname hsection hdir hfile hpage =>
      rcases mem_ends_of_contains hfile (names_suffix_join _ _) hplain hnames with
        rfl | hway | hway
      · exact .inl (.inl rfl)
      · exact .inl (.inr hway)
      · exact .inr hway
  · show joinStrings "/" (start ++ way) = m.name
    rw [← hnames, joinStrings_names]

/-! ## Finitely many modules -/

theorem finite_ok {ε : Type} (e : Except ε α) : {a | e = .ok a}.Finite := by
  apply Subsingleton.finite
  intro a (ha : e = .ok a) b hb
  exact Except.ok.inj (ha.symm.trans hb)

theorem finite_some (o : Option α) : {a | o = some a}.Finite := by
  apply Subsingleton.finite
  intro a (ha : o = some a) b hb
  exact Option.some.inj (ha.symm.trans hb)

def placed (root : String) (packageName dir : Text) (sec : String) (x : String × Bool) : Module :=
  ⟨⟨packageName.display, sec, x.1⟩, joinAll root [dir.display, (fileName x.1).1],
    if x.2 then some (joinAll root ["docs", (fileName x.1).2 ++ ".md"]) else none⟩

theorem finite_foundIn (s : Setting) {names : Set String} (hnames : names.Finite) :
    {m | FoundIn s m ∧ m.name ∈ names}.Finite := by
  have hfinite : (⋃ x ∈ {x | x ∈ s.pkgs}, ⋃ root ∈ {r | rootDir x.2 = .ok r},
      ⋃ packageName ∈ {n | name x.2 = .ok n}, ⋃ sec ∈ {n | n ∈ ["tests", "lib"]},
      ⋃ dir ∈ {d | d ∈ dirsOf x.2 sec},
        placed root packageName dir sec '' (names ×ˢ univ)).Finite :=
    (finite_toSet _).biUnion fun x _ => (finite_ok _).biUnion fun root _ =>
      (finite_ok _).biUnion fun packageName _ => (finite_toSet _).biUnion fun sec _ =>
      (finite_toSet _).biUnion fun dir _ => (hnames.prod finite_univ).image _
  refine hfinite.subset ?_
  rintro m ⟨hm, hname⟩
  cases hm with
  | @intro pkg packageName dir cfg root sec name documentation hcfg hroot
      hpkg hsection hdir hfile hpage =>
      refine mem_biUnion (mem_of_get? hcfg) (mem_biUnion hroot
        (mem_biUnion hpkg (mem_biUnion hsection (mem_biUnion hdir
          ⟨(name, documentation.isSome), ⟨hname, trivial⟩, ?_⟩))))
      rcases hpage with rfl | rfl <;> rfl

theorem finite_mainOf (s : Setting) : {m | MainOf s m}.Finite := by
  have hfinite : (⋃ x ∈ {x | x ∈ s.pkgs}, ⋃ root ∈ {r | rootDir x.2 = .ok r},
      ⋃ packageName ∈ {n | name x.2 = .ok n},
      ⋃ main ∈ {v | given? x.2 "main" = some v},
      ⋃ mainName ∈ {n | asText main = .ok n},
      ⋃ file ∈ {f | f ∈ mainFiles root (display mainName) none},
        (fun name => (⟨⟨display packageName, "lib", name⟩, file, none⟩ : Module)) ''
          {n | nameInLibrary s.files x.2 file = .ok n}).Finite :=
    (finite_toSet _).biUnion fun x _ => (finite_ok _).biUnion fun root _ =>
      (finite_ok _).biUnion fun packageName _ => (finite_some _).biUnion fun main _ =>
      (finite_ok _).biUnion fun mainName _ => (finite_toSet _).biUnion fun file _ =>
      (finite_ok _).image _
  refine hfinite.subset ?_
  rintro m hm
  cases hm with
  | intro hcfg hmain hroot htext hfile hlibrary hname =>
    exact mem_biUnion (mem_of_get? hcfg) (mem_biUnion hroot
      (mem_biUnion hname (mem_biUnion hmain (mem_biUnion htext
        (mem_biUnion hfile ⟨_, hlibrary, rfl⟩)))))

theorem finite_start (s : Setting) (scope : Scope) : {m | Start s scope m}.Finite := by
  have hmain : (⋃ main ∈ {v | get? s.target "main" = some v},
      {m | topModule s main = .ok m}).Finite :=
    (finite_some _).biUnion fun main _ => finite_ok _
  have hrunner : {m | ∃ trail, Runs (findRunner s) {} (.ok m) trail}.Finite := by
    apply Subsingleton.finite
    rintro m ⟨trail, hm⟩ m' ⟨trail', hm'⟩
    cases hm.symm.trans hm'
    rfl
  have htests : (⋃ dirs ∈ {d | testDirs s = .ok d},
      ⋃ pkg ∈ {n | fromPackage (name s.target) = .ok n},
      ⋃ dir ∈ {d | d ∈ dirs},
      ⋃ tests ∈ {l | testsIn s scope.filter (display pkg) dir = .ok l}, {m | m ∈ tests}).Finite :=
    (finite_ok _).biUnion fun dirs _ => (finite_ok _).biUnion fun pkg _ =>
      (finite_toSet _).biUnion fun dir _ =>
      (finite_ok _).biUnion fun tests _ => finite_toSet _
  have hextra : (⋃ x ∈ {x | x ∈ scope.extra}, {m | extraModule s x = .ok m}).Finite :=
    (finite_toSet _).biUnion fun x _ => finite_ok _
  refine (((hmain.union hrunner).union htests).union hextra).subset ?_
  intro m hm
  cases hm with
  | main hmain hm => exact .inl (.inl (.inl (mem_biUnion hmain hm)))
  | runner _ hm => exact .inl (.inl (.inr hm))
  | test _ hdirs hpkg hdir hlist hm =>
    exact .inl (.inr (mem_biUnion hdirs (mem_biUnion hpkg
      (mem_biUnion hdir (mem_biUnion hlist hm)))))
  | extra hx hm => exact .inr (mem_biUnion hx hm)

theorem finite_asked (s : Setting) : {name | ∃ m line, Asks s m name line}.Finite := by
  have hfinite : (⋃ x ∈ {x | x ∈ s.files.tree}, ⋃ content ∈ {c | x.2 = Node.file c},
      ⋃ required ∈ {r | askedBy? s.strings content = some r}, {n | n ∈ keys required}).Finite := by
    refine (finite_toSet _).biUnion fun x _ => Finite.biUnion ?_ fun content _ =>
      (finite_some _).biUnion fun required _ => finite_toSet _
    apply Subsingleton.finite
    intro c (hc : x.2 = .file c) c' hc'
    exact Node.file.inj (hc.symm.trans hc')
  refine hfinite.subset ?_
  rintro name ⟨m, line, required, hasked, hline⟩
  obtain ⟨content, hread, hasked⟩ := Option.bind_eq_some_iff.1 hasked
  obtain ⟨l, hmem⟩ := Files.mem_of_read? hread
  exact mem_biUnion hmem (mem_biUnion rfl (mem_biUnion hasked
    (contains_iff.1 (contains_of_get? hline))))

/-- The names that modules of a program have by themselves, not relative to another module. -/
def givenNames (s : Setting) (scope : Scope) : Set String :=
  (fun m : Module => m.name) '' {m | Start s scope m ∨ MainOf s m} ∪
    ⋃ name ∈ {name | ∃ m line, Asks s m name line}, {n | n ∈ directNames name}

theorem finite_givenNames (s : Setting) (scope : Scope) : (givenNames s scope).Finite :=
  (((finite_start s scope).union (finite_mainOf s)).image _).union
    ((finite_asked s).biUnion fun _ _ => finite_toSet _)

/-- Every relative name that leads from a module of the program to another is straight. -/
def StraightProgram (s : Setting) (scope : Scope) : Prop :=
  ∀ m name line other, Met s scope m → Asks s m name line → Means s m name line (some other) →
    isRelative name = true → Straight name

theorem StraightProgram.of_closed (ms : List Module)
    (hstart : ∀ m, Start s scope m → m ∈ ms) (hclosed : Closed s ms)
    (h : ∀ m ∈ ms, ∀ x ∈ (asked? s m.file).getD [], isRelative x.1 → Straight x.1) :
    StraightProgram s scope := by
  intro m name line other hm hasks _ hrel
  obtain ⟨required, hasked, hline⟩ := hasks
  refine h m (hm.mem_of_closed hstart hclosed) (name, line) ?_ hrel
  rw [hasked]
  exact mem_of_get? hline

theorem Met.shaped (hstraight : StraightProgram s scope) (hm : Met s scope m) :
    Shaped (givenNames s scope) m.name ∧ (Start s scope m ∨ MainOf s m ∨ FoundIn s m) := by
  induction hm with
  | start hm => exact ⟨shaped_of_mem (.inl ⟨_, .inl hm, rfl⟩), .inl hm⟩
  | asked hm hasks hfree hmeans ih =>
    rcases hmeans.found with ⟨hrel, hfound, hname⟩ | hmain | ⟨hfound, hname⟩
    · exact ⟨ih.1.relative (hstraight _ _ _ _ hm hasks hmeans hrel) hname, .inr (.inr hfound)⟩
    · exact ⟨shaped_of_mem (.inl ⟨_, .inr hmain, rfl⟩), .inr (.inl hmain)⟩
    · exact ⟨shaped_of_mem (.inr (mem_biUnion ⟨_, _, hasks⟩ hname)), .inr (.inr hfound)⟩

/-- **A straight program has finitely many modules.** -/
theorem finite_met (hstraight : StraightProgram s scope) : {m | Met s scope m}.Finite := by
  have hfound := finite_foundIn s (finite_possibleNames s.files.tree (finite_givenNames s scope))
  refine (((finite_start s scope).union (finite_mainOf s)).union hfound).subset ?_
  intro m hm
  obtain ⟨hshape, hstart | hmain | hfound⟩ := hm.shaped hstraight
  · exact .inl (.inl hstart)
  · exact .inl (.inr hmain)
  · exact .inr ⟨hfound, mem_possibleNames hfound hshape⟩

end AddonBuilder.Linker
