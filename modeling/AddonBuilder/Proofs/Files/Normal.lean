import AddonBuilder.Proofs.Files.Growth

/-!
# Absolute paths in normal form

A path ends in the name that was joined to it (`base_join`).
-/

namespace AddonBuilder

open List
open AddonBuilder.Path (IsName)

namespace Path

/-! ### The last name -/

theorem exists_names_eq (p : String) : ∃ before, names p = before ++ [base p] := by
  have hlast : (base p).toList = (p.toList.reverse.takeWhile (· ≠ '/')).reverse :=
    String.toList_ofList
  have hbase : '/' ∉ (base p).toList := by
    intro hmem
    rw [hlast, mem_reverse] at hmem
    have hall := all_takeWhile (p := fun c => decide (c ≠ '/')) (l := p.toList.reverse)
    simpa using all_eq_true.1 hall '/' hmem
  have hp : p.toList = (p.toList.reverse.dropWhile (· ≠ '/')).reverse ++ (base p).toList := by
    rw [hlast, ← reverse_append, takeWhile_append_dropWhile, reverse_reverse]
  cases hrest : p.toList.reverse.dropWhile (· ≠ '/') with
  | nil =>
    rw [hrest, reverse_nil, nil_append, String.toList_inj] at hp
    refine ⟨[], ?_⟩
    rw [← hp] at hbase ⊢
    exact names_of_not_mem hbase
  | cons c rest =>
    have hc : c = '/' := by
      have hhead := head?_dropWhile_not (fun x => decide (x ≠ '/')) p.toList.reverse
      rw [hrest] at hhead
      simpa using hhead
    have hjoin : p = String.ofList rest.reverse ++ "/" ++ base p := by
      rw [← String.toList_inj, hp, hrest, hc]
      simp
    refine ⟨names (String.ofList rest.reverse), ?_⟩
    rw [hjoin, names_append_slash, ← hjoin, names_of_not_mem hbase]

theorem getLast?_names (p : String) : (names p).getLast? = some (base p) := by
  obtain ⟨before, hnames⟩ := exists_names_eq p
  rw [hnames, getLast?_concat]

/-- Joining keeps the last name. -/
theorem base_join (a b : String) : base (join a b) = base b := by
  obtain ⟨before, hbefore⟩ := names_suffix_join a b
  have hlast := getLast?_names (join a b)
  rw [← hbefore, getLast?_append, getLast?_names, Option.some_or] at hlast
  exact (Option.some.inj hlast).symm

/-! ### The normal form -/

/-- Behind the root, what has been taken up stays a list of names. -/
theorem isName_of_mem_pushName {done : List String} {name : String} (hname : '/' ∉ name.toList)
    (hdone : ∀ n ∈ done, IsName n) : ∀ n ∈ pushName true done name, IsName n := by
  unfold pushName
  split
  · exact hdone
  rename_i hplain
  split
  · grind
  · rename_i hdots
    simp only [Bool.or_eq_true, decide_eq_true_eq, not_or] at hplain
    exact forall_mem_cons.2 ⟨⟨⟨hplain.1, hplain.2, hdots⟩, hname⟩, hdone⟩

theorem isName_of_mem_normalNames {names : List String} (hnames : ∀ n ∈ names, '/' ∉ n.toList) :
    ∀ n ∈ normalNames true names, IsName n := by
  have hfold : ∀ done, (∀ n ∈ done, IsName n) →
      ∀ n ∈ names.foldl (pushName true) done, IsName n := by
    induction names with
    | nil => exact fun _ hdone => hdone
    | cons name names ih =>
      intro done hdone
      obtain ⟨hname, hnames⟩ := forall_mem_cons.1 hnames
      exact ih hnames _ (isName_of_mem_pushName hname hdone)
  intro n hn
  exact hfold [] (forall_mem_nil _) n (mem_reverse.1 hn)

theorem isAbsolute_slash (rest : String) : isAbsolute ("/" ++ rest) :=
  Text.beginsWith_iff.2 ⟨rest, rfl⟩

theorem isAbsolute_join {a : String} (ha : isAbsolute a) (b : String) : isAbsolute (join a b) := by
  obtain ⟨rest, rfl⟩ := Text.beginsWith_iff.1 ha
  unfold join
  split
  · assumption
  · split
    · rw [String.append_assoc]
      exact isAbsolute_slash _
    · rw [String.append_assoc, String.append_assoc]
      exact isAbsolute_slash _

theorem leadingSlashes_cases {p : String} (hp : isAbsolute p) :
    leadingSlashes p = "/" ∨ leadingSlashes p = "//" := by
  unfold leadingSlashes
  rw [hp]
  split
  · exact .inl rfl
  · split
    · exact .inr rfl
    · exact .inl rfl

/-- The names of a normal path are those of its location, after one empty name or more. -/
theorem exists_names_rooted {root : String} (hroot : root = "/" ∨ root = "//") {l : Location}
    (hl : ∀ n ∈ l, IsName n) :
    ∃ k, names (root ++ Text.joinStrings "/" l) = replicate (k + 1) "" ++ l := by
  have hjoined : ∃ k, names (Text.joinStrings "/" l) = replicate k "" ++ l := by
    by_cases hne : l = []
    · exact ⟨1, by rw [hne]; rfl⟩
    · exact ⟨0, names_joinStrings hne fun n hn => (hl n hn).2⟩
  obtain ⟨k, hk⟩ := hjoined
  rcases hroot with rfl | rfl
  · exact ⟨k, by rw [Files.names_slash, hk]; rfl⟩
  · have htwice : "//" ++ Text.joinStrings "/" l = "/" ++ ("/" ++ Text.joinStrings "/" l) := by
      rw [← String.append_assoc]
      rfl
    exact ⟨k + 1, by rw [htwice, Files.names_slash, Files.names_slash, hk]; rfl⟩

/-- The last name of a path from the root. -/
theorem base_rooted {root : String} (hroot : root = "/" ∨ root = "//") {l : Location}
    (hl : ∀ n ∈ l, IsName n) : base (root ++ Text.joinStrings "/" l) = l.getLast?.getD "" := by
  obtain ⟨k, hk⟩ := exists_names_rooted hroot hl
  have hlast := getLast?_names (root ++ Text.joinStrings "/" l)
  grind

theorem isAbsolute_rooted {root : String} (hroot : root = "/" ∨ root = "//") (rest : String) :
    isAbsolute (root ++ rest) := by
  rw [isAbsolute_append (by rcases hroot with rfl | rfl <;> rfl)]
  rcases hroot with rfl | rfl <;> rfl

end Path

/-- A normal path leads to the location that it spells, if anywhere. -/
theorem FileTree.eq_of_locate?_rooted {t : FileTree} {here l m : Location} {root : String}
    (hroot : root = "/" ∨ root = "//") (hl : ∀ n ∈ l, IsName n)
    (h : t.locate? here (root ++ Text.joinStrings "/" l) = some m) : m = l := by
  obtain ⟨k, hk⟩ := Path.exists_names_rooted hroot hl
  have hempty : t.isDir [] := rfl
  rw [locate?, if_neg (by simp [isEmpty_of_locate? h]), Path.isAbsolute_rooted hroot, if_pos rfl, hk,
    walk?_replicate hempty] at h
  exact walk?_plain (fun n hn => (hl n hn).1) h

theorem Files.absolute_eq (f : Files) (path : String) :
    ∃ root, (root = "/" ∨ root = "//") ∧ f.absolute path =
      root ++ Text.joinStrings "/" (Path.normalNames true (Path.names (Path.join f.herePath path))) := by
  have habsolute : Path.isAbsolute (Path.join f.herePath path) :=
    Path.isAbsolute_join (Path.isAbsolute_slash _) path
  have hroot := Path.leadingSlashes_cases habsolute
  have hrooted : (!(Path.leadingSlashes (Path.join f.herePath path)).isEmpty) := by
    rcases hroot with hroot | hroot <;> rw [hroot] <;> rfl
  refine ⟨_, hroot, ?_⟩
  unfold absolute Path.absolute Path.normal
  simp only [hrooted]
  rw [if_neg]
  rw [String.isEmpty_iff, ← String.toList_inj]
  rcases hroot with hroot | hroot <;> rw [hroot] <;> simp

theorem Files.isName_absolute (f : Files) (path : String) :
    ∀ n ∈ Path.normalNames true (Path.names (Path.join f.herePath path)), IsName n :=
  Path.isName_of_mem_normalNames fun _ hn => Path.not_mem_of_mem_names hn

/-- **An absolute path in normal form spells a location.** -/
theorem Files.exists_absolute (f : Files) (path : String) :
    ∃ (root : String) (l : Location), (root = "/" ∨ root = "//") ∧ (∀ n ∈ l, IsName n) ∧
      f.absolute path = root ++ Text.joinStrings "/" l := by
  obtain ⟨root, hroot, htext⟩ := f.absolute_eq path
  exact ⟨root, _, hroot, f.isName_absolute path, htext⟩

/-- Seen from the root, a path keeps its last name. -/
theorem Files.base_absolute (f : Files) {path : String} (h : Path.Plain (Path.base path)) :
    Path.base (f.absolute path) = Path.base path := by
  obtain ⟨root, hroot, htext⟩ := f.absolute_eq path
  obtain ⟨before, hbefore⟩ := Path.exists_names_eq (Path.join f.herePath path)
  rw [Path.base_join] at hbefore
  obtain ⟨hempty, hdot, hdots⟩ := h
  rw [htext, Path.base_rooted hroot (f.isName_absolute path), hbefore, Path.normalNames,
    foldl_concat, Path.pushName.eq_def, if_neg (by simp [hempty, hdot]), if_neg hdots,
    reverse_cons, getLast?_concat]
  rfl

end AddonBuilder
