import AddonBuilder.Proofs.Archive.Shipped

/-!
# The order of entries

The plan of an archive is written in the order of names, so a directory comes before its files
(`leadsUp_plan`).
-/

namespace AddonBuilder.Extension

open Json List
open AddonBuilder.Path (IsName Bare below)

variable {name d : String} {x : String × Option Nat} {l l' : List (String × Option Nat)} {p : Plan}

/-! ## The order of a plan -/

theorem mem_parentsOf_iff : d ∈ Plan.parentsOf name ↔ ∃ rest, name = d ++ "/" ++ rest := by
  obtain ⟨first, way, hparts⟩ := exists_cons_of_ne_nil (Path.names_ne_nil name)
  have hname : below first way = name := by rw [below, ← hparts, Path.joinStrings_names]
  unfold Plan.parentsOf
  simp only [mem_map, mem_range, hparts, length_cons, Nat.add_sub_cancel, take_succ_cons]
  constructor
  · rintro ⟨n, hn, rfl⟩
    have hrest : way.drop n ≠ [] := by
      rw [ne_eq, drop_eq_nil_iff]
      omega
    refine ⟨Text.joinStrings "/" (way.drop n), ?_⟩
    rw [← below, ← Path.below_eq _ hrest, ← Path.below_append, take_append_drop, hname]
  · rintro ⟨rest, hrest⟩
    have hsplit : Path.names d ++ Path.names rest = first :: way := by
      rw [← hparts, hrest, Path.names_append_slash]
    obtain ⟨first', way', hd⟩ := exists_cons_of_ne_nil (Path.names_ne_nil d)
    obtain ⟨_, _, hlast⟩ := exists_cons_of_ne_nil (Path.names_ne_nil rest)
    rw [hd, hlast, cons_append, cons.injEq] at hsplit
    obtain ⟨rfl, rfl⟩ := hsplit
    refine ⟨way'.length, by simp, ?_⟩
    rw [take_left, ← hd, Path.joinStrings_names]

theorem lt_append_slash (d rest : String) : d < d ++ "/" ++ rest := by
  rw [String.lt_iff_toList_lt, String.append_assoc, String.toList_append]
  induction d.toList with
  | nil => simp
  | cons c letters ih => exact cons_lt_cons_iff.2 (.inr ⟨rfl, ih⟩)

/-- A stored name without the slash at its end. -/
def stem (name : String) : String := (Text.beforeEnd? name "/").getD name

@[simp] theorem stem_copyLabel_true (name : String) : stem (copyLabel true name).1 = name := by
  have hslash : Text.beforeEnd? (name ++ "/") "/" = some name := Text.beforeEnd?_eq_some_iff.2 rfl
  exact congrArg (Option.getD · (name ++ "/")) hslash

theorem copyLabel_true_inj {name' : String} (h : copyLabel true name = copyLabel true name') :
    name = name' := by
  rw [← stem_copyLabel_true name, h, stem_copyLabel_true]

theorem stem_copyLabel_false (h : Bare name) : stem (copyLabel false name).1 = name := by
  have hnone : Text.beforeEnd? name "/" = none := by
    refine Option.eq_none_iff_forall_ne_some.2 fun t ht => ?_
    have := Text.endsWith_iff.2 ⟨t, Text.beforeEnd?_eq_some_iff.1 ht⟩
    rw [h.2] at this
    cases this
  rw [stem]
  exact congrArg (Option.getD · name) hnone

theorem mem_names : name ∈ p.names ↔ name ∈ p.dirs ∨ Assoc.contains p.files name := by
  rw [Plan.names, sortedStrings_eq, mem_insertionSort, mem_eraseDups, mem_append, Assoc.contains_iff]

theorem mem_planLabels : x ∈ p.names.flatMap (planLabels p) ↔
    (∃ d ∈ p.dirs, x = copyLabel true d) ∨
      ∃ n, Assoc.contains p.files n ∧ x = copyLabel false n := by
  simp only [mem_flatMap, mem_names, planLabels, mem_append, contains_iff_mem, mem_ite_nil_right,
    mem_singleton]
  grind

theorem stem_of_mem_planLabels (hbare : ∀ n, Assoc.contains p.files n → Bare n)
    (hx : x ∈ planLabels p name) : stem x.1 = name := by
  simp only [planLabels, mem_append, mem_ite_nil_right, mem_singleton] at hx
  rcases hx with ⟨-, rfl⟩ | ⟨hn, rfl⟩
  · exact stem_copyLabel_true name
  · exact stem_copyLabel_false (hbare name hn)

theorem nodup_eraseDups (l : List String) : l.eraseDups.Nodup := by
  induction hn : l.length using Nat.strong_induction_on generalizing l with
  | _ n ih =>
    cases l with
    | nil => exact nodup_nil
    | cons a l =>
      have hlen : (l.filter fun b => !b == a).length < n :=
        (length_filter_le ..).trans_lt (by rw [← hn]; simp)
      rw [eraseDups_cons, nodup_cons, mem_eraseDups]
      exact ⟨by simp, ih _ hlen _ rfl⟩

/-- **The plan is written in the order of names.** -/
theorem pairwise_planLabels (hbare : ∀ n, Assoc.contains p.files n → Bare n) :
    (p.names.flatMap (planLabels p)).Pairwise fun x y => stem x.1 ≤ stem y.1 := by
  rw [pairwise_flatMap]
  constructor
  · intro n _
    refine pairwise_of_forall_mem_list fun x hx y hy => ?_
    rw [stem_of_mem_planLabels hbare hx, stem_of_mem_planLabels hbare hy]
  · rw [Plan.names, sortedStrings_eq]
    refine (pairwise_insertionSort (· ≤ ·) _).imp fun hle x hx y hy => ?_
    rwa [stem_of_mem_planLabels hbare hx, stem_of_mem_planLabels hbare hy]

theorem nodup_planLabels (hbare : ∀ n, Assoc.contains p.files n → Bare n) :
    ((p.names.flatMap (planLabels p)).map Prod.fst).Nodup := by
  have hnames : p.names.Nodup := by
    rw [Plan.names, sortedStrings_eq]
    exact (perm_insertionSort ..).nodup_iff.2 (nodup_eraseDups _)
  rw [map_flatMap, Nodup, pairwise_flatMap]
  constructor
  · intro n _
    unfold planLabels
    have hne : n ++ "/" ≠ n := by simp
    split <;> split <;> simp [copyLabel, hne]
  · refine hnames.imp fun hne y hy z hz heq => hne ?_
    obtain ⟨y', hy', rfl⟩ := mem_map.1 hy
    obtain ⟨z', hz', rfl⟩ := mem_map.1 hz
    rw [← stem_of_mem_planLabels hbare hy', heq, stem_of_mem_planLabels hbare hz']

/-! ## Directories before their files -/

/-- Every directory on the way to a file has an entry before the file. -/
def LeadsUp (l : List (String × Option Nat)) : Prop :=
  ∀ before x later, l = before ++ x :: later → x.1.toList.getLast? ≠ some '/' →
    ∀ d rest, x.1 = d ++ "/" ++ rest → copyLabel true d ∈ before

theorem LeadsUp.append (h : LeadsUp l) (h' : LeadsUp l') : LeadsUp (l ++ l') := by
  intro before x later hsplit hfile d rest hname
  rcases append_eq_append_iff.1 hsplit with ⟨m, rfl, hm⟩ | ⟨m, hm, hlater⟩
  · exact mem_append_right _ (h' m x later hm hfile d rest hname)
  · cases m with
    | nil => cases h' [] x later hlater.symm hfile d rest hname
    | cons y m =>
      obtain ⟨rfl, -⟩ := cons.inj hlater
      exact h before x m hm hfile d rest hname

theorem leadsUp_of_flat (h : ∀ x ∈ l, x.1.toList.getLast? ≠ some '/' → '/' ∉ x.1.toList) :
    LeadsUp l := by
  intro before x later hsplit hfile d rest hname
  refine absurd ?_ (h x (by simp [hsplit]) hfile)
  simp [hname]

/-- Every file comes after the directories it lies in. -/
theorem leadsUp_plan (hbare : ∀ n, Assoc.contains p.files n → Bare n)
    (hparents : ∀ n, Assoc.contains p.files n → ∀ d ∈ Plan.parentsOf n, d ∈ p.dirs) :
    LeadsUp (p.names.flatMap (planLabels p)) := by
  intro before x later hsplit hfile d rest hname
  have hsorted := pairwise_planLabels hbare
  rw [hsplit, pairwise_append, pairwise_cons] at hsorted
  rcases mem_planLabels.1 (hsplit ▸ mem_append_right before mem_cons_self) with
    ⟨_, -, rfl⟩ | ⟨n, hn, rfl⟩
  · exact absurd (by simp [copyLabel]) hfile
  · have hdir : copyLabel true d ∈ p.names.flatMap (planLabels p) :=
      mem_planLabels.2 (.inl ⟨d, hparents n hn d (mem_parentsOf_iff.2 ⟨rest, hname⟩), rfl⟩)
    rw [hsplit] at hdir
    refine (mem_append.1 hdir).resolve_right fun hlater => ?_
    have hle : stem (copyLabel false n).1 ≤ stem (copyLabel true d).1 := by
      rcases mem_cons.1 hlater with heq | hlater
      · rw [heq]
      · exact hsorted.2.1.1 _ hlater
    rw [stem_copyLabel_false (hbare n hn), stem_copyLabel_true] at hle
    exact absurd (lt_of_lt_of_eq (lt_append_slash d rest) hname.symm) (not_lt.2 hle)

theorem leadsUp_locales {languages : Members} (hflat : ∀ x ∈ languages, '/' ∉ x.1.display.toList) :
    LeadsUp (copyLabel true "locale" :: tableLabels languages ++
      [("locales.json", some Archive.fileMode)]) := by
  refine LeadsUp.append ?_ (leadsUp_of_flat (by simp))
  intro before x later hsplit hfile d rest hname
  cases before with
  | nil =>
    obtain ⟨rfl, -⟩ := cons.inj hsplit
    exact absurd (by decide) hfile
  | cons y before =>
    obtain ⟨rfl, htables⟩ := cons.inj hsplit
    have hmem : x ∈ tableLabels languages := by
      rw [htables]
      exact mem_append_right before mem_cons_self
    obtain ⟨language, hlanguage, rfl⟩ := mem_map.1 hmem
    have hlast : '/' ∉ (language.1.display ++ ".json").toList := by
      simpa using hflat language (mem_mergeSort.1 hlanguage)
    have hnames : Path.names d ++ Path.names rest = ["locale", language.1.display ++ ".json"] := by
      rw [← Path.names_append_slash, ← hname, String.append_assoc,
        show "locale/" = "locale" ++ "/" from rfl, Path.names_append_slash,
        Path.names_of_not_mem hlast]
      rfl
    obtain ⟨first, way, hd⟩ := exists_cons_of_ne_nil (Path.names_ne_nil d)
    obtain ⟨next, more, hrest⟩ := exists_cons_of_ne_nil (Path.names_ne_nil rest)
    rw [hd, hrest, cons_append, cons.injEq, append_eq_singleton_iff] at hnames
    obtain ⟨rfl, ⟨rfl, -⟩ | ⟨-, hnil⟩⟩ := hnames
    · rw [← Path.joinStrings_names d, hd]
      exact mem_cons_self
    · cases hnil

variable {files : Files} {options languages : Members}

theorem flat_icons : ∀ name ∈ ["icon.png", "icon64.png"], '/' ∉ name.toList := by decide

theorem leadsUp_front (hflat : ∀ x ∈ languages, '/' ∉ x.1.display.toList) :
    LeadsUp (frontLabels files options languages) := by
  have hicons : LeadsUp (icons files options) := by
    refine leadsUp_of_flat fun x hx hfile => ?_
    obtain ⟨name, hname, dir, rfl⟩ := exists_of_mem_icons hx
    cases dir with
    | false => exact flat_icons name hname
    | true => exact absurd (by simp [copyLabel]) hfile
  have hfirst : LeadsUp [("install.rdf", none)] := leadsUp_of_flat (by simp)
  exact hfirst.append (hicons.append (leadsUp_locales hflat))

/-- A language with a slash in its name has a table in a directory that is not there. -/
theorem flat_of_leadsUp (h : LeadsUp (frontLabels files options languages ++ l)) :
    ∀ x ∈ languages, '/' ∉ x.1.display.toList := by
  intro language hlanguage hslash
  obtain ⟨a, b, hab⟩ := append_of_mem hslash
  have hname : language.1.display = String.ofList a ++ "/" ++ String.ofList b := by
    rw [← String.toList_inj, hab]
    simp
  have htable : ("locale/" ++ language.1.display ++ ".json", some Archive.fileMode) ∈
      frontLabels files options languages := by
    have : _ ∈ tableLabels languages := mem_map_of_mem (mem_mergeSort.2 hlanguage)
    simp [frontLabels, this]
  obtain ⟨before, later, hsplit⟩ := append_of_mem htable
  have hwhole := congrArg (· ++ l) hsplit
  rw [append_assoc, cons_append] at hwhole
  have hdir := h before _ _ hwhole (getLast?_append_json _) ("locale/" ++ String.ofList a)
    (String.ofList b ++ ".json") (by simp [hname, String.append_assoc])
  have hmem : copyLabel true ("locale/" ++ String.ofList a) ∈
      frontLabels files options languages := by
    rw [hsplit]
    exact mem_append_left _ hdir
  have hslash : '/' ∈ ("locale/" ++ String.ofList a).toList := by simp
  rcases frontLabels_cases hmem with heq | hicon | ⟨-, -, hmode⟩
  · rw [copyLabel_true_inj heq] at hslash
    exact absurd hslash (by decide)
  · obtain ⟨name, hname, dir, heq⟩ := exists_of_mem_icons hicon
    cases dir with
    | false => cases heq
    | true =>
      rw [copyLabel_true_inj heq] at hslash
      exact flat_icons name hname hslash
  · exact hmode mem_cons_self

end AddonBuilder.Extension
