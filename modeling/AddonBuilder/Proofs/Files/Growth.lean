import AddonBuilder.Proofs.Files.Walk

/-!
# Making, copying and removing directories

Files **grow** at a location if nothing changes elsewhere and no directory is lost.
-/

namespace AddonBuilder

open Assoc Path
open AddonBuilder.Path (Plain IsName Bare below)

theorem Assoc.get?_filter {κ α : Type} [DecidableEq κ] (p : κ → Bool) (m : Assoc κ α) (k : κ) :
    get? (m.filter fun q => p q.1) k = if p k then get? m k else none := by
  induction m with
  | nil => simp [get?]
  | cons q m ih =>
    by_cases hq : q.1 = k
    · subst hq
      by_cases hp : p q.1
      · simp [hp, get?]
      · simpa [hp] using ih
    · by_cases hp : p q.1 <;> simp [hp, get?, hq, ih]

namespace FileTree

variable {t t' : FileTree} {l m source target way : Location} {here : Location} {path n : String}

theorem get?_removeAll (hl : l ≠ []) (m : Location) :
    (t.removeAll l).get? m = if l <+: m then none else t.get? m := by
  have hbelow : (Location.below? l m).isNone ↔ ¬ l <+: m := by
    rw [Option.isNone_iff_eq_none, Option.eq_none_iff_forall_ne_some]
    exact ⟨fun h ⟨rest, hrest⟩ => h rest (Text.dropStart?_eq_some_iff.2 hrest.symm),
      fun h rest hrest => h ⟨rest, (Text.dropStart?_eq_some_iff.1 hrest).symm⟩⟩
  unfold get? removeAll
  by_cases hm : m = []
  · subst hm
    simp [hl]
  · have hempty : m.isEmpty = false := by simpa using hm
    rw [hempty, get?_filter fun m => (Location.below? l m).isNone]
    simp only [hbelow, ite_not, Bool.false_eq_true, if_false]

theorem Sound.get?_append_eq_none (ht : t.Sound) (hl : t.get? l = none) (way : Location) :
    t.get? (l ++ way) = none := by
  by_cases hway : way = []
  · rw [hway, List.append_nil, hl]
  · by_contra hsome
    rw [← ne_eq, Option.ne_none_iff_isSome] at hsome
    have hparent := ht.isDir_dropLast hsome
    rw [List.dropLast_append_of_ne_nil hway] at hparent
    rw [isDir_iff.1 (ht.isDir_of_append hparent)] at hl
    cases hl

theorem mem_keys_iff (hl : l ≠ []) : l ∈ keys t ↔ (t.get? l).isSome := by
  rw [get?, if_neg (by simpa using hl)]
  exact contains_iff.symm

theorem makeDirs_eq (h : ∀ k < l.length, (t.get? (l.take k)).isSome) :
    t.makeDirs l = if (t.get? l).isSome then t else t.put l .dir := by
  unfold makeDirs
  have hfixed : ∀ k < l.length, (List.range k).foldl (fun t n =>
      let m := l.take (n + 1)
      if (get? t m).isSome then t else put t m .dir) t = t := by
    intro k hk
    induction k with
    | zero => rfl
    | succ k ih =>
      rw [List.range_succ, List.foldl_append, ih (Nat.lt_of_succ_lt hk)]
      exact if_pos (h (k + 1) hk)
  cases hlen : l.length with
  | zero =>
    obtain rfl := List.length_eq_zero_iff.1 hlen
    rfl
  | succ k =>
    rw [List.range_succ, List.foldl_append, hfixed k (by omega)]
    grind

/-- The nodes that a copy of a directory consists of, with their ways from there. -/
def inside (t : FileTree) (source : Location) : List (Location × Node) :=
  ([], .dir) :: t.descendants source

theorem copyAll_eq (hsource : t.isDir source) (target : Location) :
    t.copyAll source target = merge t ((t.inside source).map fun e => (target ++ e.1, e.2)) := by
  have hentries : (source, t.get? source) ::
      (t.descendants source).map (fun e => (source ++ e.1, some e.2)) =
      (t.inside source).map fun e => (source ++ e.1, some e.2) := by
    rw [inside, List.map_cons, List.append_nil, isDir_iff.1 hsource]
  have hbelow : ∀ way, Location.below? source (source ++ way) = some way := fun way =>
    Text.dropStart?_eq_some_iff.2 rfl
  unfold copyAll merge
  rw [hentries, List.foldl_map, List.foldl_map]
  simp only [hbelow]
  rfl

theorem mem_inside (h : (keys t).Nodup) (hsource : t.isDir source) {node : Node} :
    (way, node) ∈ t.inside source ↔ t.get? (source ++ way) = some node := by
  rw [inside, List.mem_cons, mem_descendants]
  by_cases hway : way = []
  · subst hway
    rw [List.append_nil, isDir_iff.1 hsource]
    simp [eq_comm]
  · rw [get?, if_neg (by simp [hway]), get?_eq_some_iff h]
    simp [hway]

/-- **What stands in a copy of a directory.** -/
theorem get?_copyAll (h : (Assoc.keys t).Nodup) (hsource : t.isDir source)
    (htarget : target ≠ []) (way : Location) :
    (t.copyAll source target).get? (target ++ way) =
      (t.get? (source ++ way)).or (t.get? (target ++ way)) := by
  have hget? : ∀ t : FileTree, t.get? (target ++ way) = Assoc.get? t (target ++ way) := fun t =>
    if_neg (by simp [htarget])
  rw [copyAll_eq hsource, hget?, hget?, Assoc.get?_merge]
  congr 1
  cases hget : Assoc.get? ((t.inside source).map fun e => (target ++ e.1, e.2)).reverse
      (target ++ way) with
  | some node =>
    obtain ⟨⟨way', node'⟩, hmem, heq⟩ :=
      List.mem_map.1 (List.mem_reverse.1 (Assoc.mem_of_get? hget))
    obtain ⟨hway, rfl⟩ := Prod.mk.inj heq
    obtain rfl := List.append_cancel_left hway
    exact ((mem_inside h hsource).1 hmem).symm
  | none =>
    by_contra hsome
    obtain ⟨node, hnode⟩ := Option.ne_none_iff_exists'.1 fun hnone => hsome hnone.symm
    refine (Assoc.get?_eq_none_iff _ _).1 hget (List.mem_map.2 ⟨(target ++ way, node), ?_, rfl⟩)
    exact List.mem_reverse.2 (List.mem_map.2 ⟨_, (mem_inside h hsource).2 hnode, rfl⟩)

theorem get?_copyAll_of_not_prefix (hsource : t.isDir source) (hm : ¬ target <+: m) :
    (t.copyAll source target).get? m = t.get? m := by
  have hnone : Assoc.get? ((t.inside source).map fun e => (target ++ e.1, e.2)).reverse m = none := by
    rw [Assoc.get?_eq_none_iff]
    intro hkey
    obtain ⟨_, hmem, rfl⟩ := List.mem_map.1 hkey
    grind
  rw [copyAll_eq hsource, get?, get?, Assoc.get?_merge, hnone, Option.none_or]

theorem nodup_copyAll (h : (keys t).Nodup) (hsource : t.isDir source) :
    (keys (t.copyAll source target)).Nodup := by
  rw [copyAll_eq hsource]
  exact (merge_spec h _).2

/-- What stands in a copy of a directory that was made where nothing is. -/
theorem get?_copyAll_put (h : (keys t).Nodup) (hsource : t.isDir source)
    (htarget : target ≠ []) (hfree : ∀ way, t.get? (target ++ way) = none)
    (hapart : ∀ way, ¬ target = source ++ way) (way : Location) :
    ((t.put target .dir).copyAll source target).get? (target ++ way) =
      if way = [] then some .dir else t.get? (source ++ way) := by
  have hput : ∀ m, ¬ target = m → (t.put target .dir).get? m = t.get? m := fun m hm => by
    rw [get?_put htarget, if_neg hm]
  have hsource' : (t.put target .dir).isDir source := by
    rw [isDir, hput source (by simpa using hapart []), ← isDir, hsource]
  have hnodup : (keys (t.put target .dir)).Nodup := nodup_insert h target .dir
  rw [get?_copyAll hnodup hsource' htarget, hput _ (hapart way)]
  by_cases hway : way = []
  · rw [hway, List.append_nil, isDir_iff.1 hsource, if_pos rfl, Option.some_or]
  · rw [if_neg hway, hput _ (by simp [hway]), hfree way, Option.or_none]

theorem isSome_get?_take_concat {l : Location} {n : String}
    (h : ∀ k, (t.get? (l.take k)).isSome) {k : Nat} (hk : k < (l ++ [n]).length) :
    (t.get? ((l ++ [n]).take k)).isSome := by
  grind

/-! ## Where paths lead -/

theorem walk?_mono (h : ∀ l, t.isDir l → t'.isDir l) {names : List String}
    (hwalk : t.walk? l names = some m) : t'.walk? l names = some m := by
  induction names generalizing l with
  | nil => exact hwalk
  | cons name names ih =>
    rw [walk?] at hwalk ⊢
    grind

theorem locate?_mono (h : ∀ l, t.isDir l → t'.isDir l)
    (hl : t.locate? here path = some l) : t'.locate? here path = some l := by
  unfold locate? at hl ⊢
  split at hl
  · cases hl
  · rw [if_neg ‹_›]
    exact walk?_mono h hl

theorem isEmpty_of_locate? (h : t.locate? here path = some l) : path.isEmpty = false := by
  by_contra hempty
  rw [locate?, if_pos (by simpa using hempty)] at h
  cases h

theorem locate?_join_of_relative {file : String} (hpath : path.isEmpty = false)
    (hfile : isAbsolute file = false) :
    t.locate? here (join path file) =
      (t.locate? here path).bind fun l => t.walk? l (names file) := by
  have hempty : ∀ rest, (path ++ rest).isEmpty = false := by
    simpa [← Bool.not_eq_true, String.isEmpty_iff] using hpath
  by_cases hend : Text.endsWith path "/"
  · have hjoin : join path file = path ++ file := by
      rw [join, hfile, hend, Bool.or_true]
      rfl
    unfold locate?
    rw [hjoin, hempty, hpath, isAbsolute_append hpath]
    obtain ⟨start, rfl⟩ := Text.endsWith_iff.1 hend
    have hnames : names (start ++ "/") = names start ++ [""] := by
      rw [← String.append_empty (s := start ++ "/"), names_append_slash]
      rfl
    rw [names_append_slash, hnames, walk?_append_eq, walk?_append_eq]
    simp only [Bool.false_eq_true, if_false, Option.bind_assoc]
    congr 1
    funext l
    have hne := names_ne_nil file
    obtain ⟨n, rest, hn⟩ := List.exists_cons_of_ne_nil hne
    by_cases hl : t.isDir l <;> simp [walk?, hn, hl]
  · have hjoin : join path file = path ++ "/" ++ file := by
      simp [join, hfile, hpath, hend]
    unfold locate?
    rw [hjoin, String.append_assoc, hempty, hpath, isAbsolute_append hpath,
      ← String.append_assoc, names_append_slash, walk?_append_eq]
    rfl

theorem locate?_join (hpath : path.isEmpty = false) (hn : IsName n) :
    t.locate? here (join path n) = (t.locate? here path).bind fun l => t.walk? l [n] := by
  rw [locate?_join_of_relative hpath hn.isAbsolute, names_of_not_mem hn.2]

/-- Along a walk the normal form of the names is the location so far. -/
theorem foldl_pushName {names : List String} (hl : ∀ n ∈ l, IsName n)
    (hnames : ∀ n ∈ names, '/' ∉ n.toList) (h : t.walk? l names = some m) :
    names.foldl (pushName true) l.reverse = m.reverse ∧ ∀ n ∈ m, IsName n := by
  induction names generalizing l with
  | nil =>
    obtain rfl := Option.some.inj h
    exact ⟨rfl, hl⟩
  | cons name names ih =>
    have hrest : ∀ n ∈ names, '/' ∉ n.toList := fun n hn => hnames n (List.mem_cons_of_mem _ hn)
    rw [List.foldl_cons, pushName.eq_def]
    rw [walk?] at h
    split at h
    · cases h
    split at h
    · rw [if_pos ‹_›]
      exact ih hl hrest h
    rename_i hempty
    rw [if_neg hempty]
    split at h
    · rw [if_pos ‹_›]
      rcases List.eq_nil_or_concat l with rfl | ⟨above, last, rfl⟩
      · exact ih hl hrest h
      · rw [List.concat_eq_append] at hl h ⊢
        rw [List.dropLast_concat] at h
        have hlast := (hl last (by simp)).1.2.2
        grind
    · rename_i hdots
      rw [if_neg hdots]
      have hname : name ≠ "" ∧ name ≠ "." := by simpa using hempty
      have hall : ∀ n ∈ l ++ [name], IsName n := by
        intro n hn
        rcases List.mem_append.1 hn with hn | hn
        · exact hl n hn
        · obtain rfl := List.mem_singleton.1 hn
          exact ⟨⟨hname.1, hname.2, hdots⟩, hnames n List.mem_cons_self⟩
      grind

end FileTree

namespace Files

variable {f : Files} {l : Location} {path : String}

theorem names_slash (path : String) : names ("/" ++ path) = "" :: names path := by
  have hnames := names_append_slash "" path
  rwa [String.empty_append] at hnames

/-- A path behind the working directory starts at the root and goes on from there. -/
theorem join_herePath (hhere : ∀ n ∈ f.here, IsName n) (path : String) :
    isAbsolute (join f.herePath path) ∧
      (names (join f.herePath path)).foldl (pushName true) [] =
        (names path).foldl (pushName true) (if isAbsolute path then [] else f.here).reverse := by
  unfold join
  split
  · exact ⟨‹_›, rfl⟩
  · have hroot : ∀ rest, isAbsolute ("/" ++ rest) := fun rest =>
      Text.beginsWith_iff.2 ⟨rest, rfl⟩
    rcases List.eq_nil_or_concat f.here with hnil | ⟨above, last, hconcat⟩
    · have hpath : f.herePath = "/" := by
        rw [herePath, hnil]
        rfl
      rw [hpath, if_pos (by decide), names_slash, hnil]
      exact ⟨hroot path, rfl⟩
    · rw [List.concat_eq_append] at hconcat
      have hbelow : f.herePath = below "" f.here := by
        rw [below_eq "" (by simp [hconcat])]
        rfl
      have hbare : Bare f.herePath := by
        rw [hbelow, hconcat, below_append]
        exact (hhere last (by simp [hconcat])).bare_append _
      have hdown : ∀ (names done : List String), (∀ n ∈ names, IsName n) →
          names.foldl (pushName true) done = names.reverse ++ done := by
        intro names
        induction names with
        | nil => exact fun _ _ => rfl
        | cons n names ih =>
          intro done hnames
          have hn := (hnames n List.mem_cons_self).1
          rw [List.foldl_cons, ih _ fun n' hn' => hnames n' (List.mem_cons_of_mem _ hn'),
            pushName.eq_def, if_neg (by simp [hn.1, hn.2.1]), if_neg hn.2.2]
          simp
      rw [hbare.1, hbare.2, if_neg (by simp), names_append_slash, List.foldl_append, hbelow,
        names_below "" hhere, List.foldl_append]
      refine ⟨?_, ?_⟩
      · rw [below_eq "" (by simp [hconcat]), String.empty_append, String.append_assoc,
          String.append_assoc]
        exact hroot _
      · have hempty : (names "").foldl (pushName true) [] = [] := rfl
        rw [hempty, hdown _ _ hhere, List.append_nil]

theorem names_rooted {root : String} (hroot : root = "/" ∨ root = "//") (hl : ∀ n ∈ l, IsName n) :
    (names (root ++ Text.joinStrings "/" l)).filter (· ≠ "") = l := by
  have hnames : (names (Text.joinStrings "/" l)).filter (· ≠ "") = l := by
    by_cases hne : l = []
    · subst hne
      rfl
    · rw [names_joinStrings hne fun n hn => (hl n hn).2, List.filter_eq_self]
      intro n hn
      simpa using (hl n hn).1.1
  rcases hroot with rfl | rfl
  · rw [names_slash]
    simpa using hnames
  · have hslash : "//" ++ Text.joinStrings "/" l = "/" ++ ("/" ++ Text.joinStrings "/" l) := by
      rw [← String.append_assoc]
      rfl
    rw [hslash, names_slash, names_slash]
    simpa using hnames

/-- **The normal form of a path is the location to which it leads.** -/
theorem names_absolute (hhere : ∀ n ∈ f.here, IsName n) (h : f.tree.locate? f.here path = some l) :
    (names (f.absolute path)).filter (· ≠ "") = l := by
  unfold FileTree.locate? at h
  split at h
  · cases h
  have hstart : ∀ n ∈ (if isAbsolute path then [] else f.here), IsName n := by
    split
    · simp
    · exact hhere
  have hwalk := FileTree.foldl_pushName hstart (fun n hn => not_mem_of_mem_names hn) h
  obtain ⟨habsolute, hfold⟩ := join_herePath hhere path
  rw [hwalk.1] at hfold
  have hroot : leadingSlashes (join f.herePath path) = "/" ∨
      leadingSlashes (join f.herePath path) = "//" := by
    unfold leadingSlashes
    rw [habsolute]
    split
    · exact .inl rfl
    · split
      · exact .inr rfl
      · exact .inl rfl
  have hrooted : (!(leadingSlashes (join f.herePath path)).isEmpty) := by
    rcases hroot with hroot | hroot <;> rw [hroot] <;> rfl
  unfold absolute Path.absolute Path.normal Path.normalNames
  simp only [hrooted, hfold, List.reverse_reverse]
  rw [if_neg]
  · exact names_rooted hroot hwalk.2
  · rw [String.isEmpty_iff, ← String.toList_inj]
    rcases hroot with hroot | hroot <;> rw [hroot] <;> simp

/-! ## Growth -/

/-- Nothing changes but at and below a location, and all directories stay. -/
structure Grows (place : Location) (f f' : Files) : Prop where
  here : f'.here = f.here
  nodup : (keys f.tree).Nodup → (keys f'.tree).Nodup
  others : ∀ l, ¬ place <+: l → f'.tree.get? l = f.tree.get? l
  dirs : ∀ l, f.tree.isDir l = true → f'.tree.isDir l = true

namespace Grows

variable {place place' m : Location} {f' f'' : Files} {n : String}

theorem refl (place : Location) (f : Files) : Grows place f f := ⟨rfl, id, fun _ _ => rfl, fun _ => id⟩

theorem trans (h : Grows place f f') (h' : Grows place f' f'') : Grows place f f'' :=
  ⟨h'.here.trans h.here, h'.nodup ∘ h.nodup, fun l hl => (h'.others l hl).trans (h.others l hl),
    fun l hl => h'.dirs l (h.dirs l hl)⟩

theorem widen (h : Grows place f f') (hplace : place' <+: place) : Grows place' f f' :=
  ⟨h.here, h.nodup, fun l hl => h.others l fun hpre => hl (hplace.trans hpre), h.dirs⟩

theorem put (hplace : place <+: l) (hne : place ≠ []) (hl : f.tree.isDir l = false)
    (node : Node) : Grows place f { f with tree := f.tree.put l node } := by
  have hlne : l ≠ [] := by
    rintro rfl
    exact hne (List.prefix_nil.1 hplace)
  refine ⟨rfl, fun h => nodup_insert h l node, fun m hm => ?_, fun m hm => ?_⟩
  · rw [FileTree.get?_put hlne, if_neg]
    rintro rfl
    exact hm hplace
  · rw [FileTree.isDir, FileTree.get?_put hlne, if_neg, ← FileTree.isDir, hm]
    rintro rfl
    rw [hl] at hm
    cases hm

theorem copyAll (hplace : place ≠ []) (hfree : ∀ way, f.tree.get? (place ++ way) = none)
    (hm : f.tree.isDir m) :
    Grows place f { f with tree := (f.tree.put place .dir).copyAll m place } := by
  have hnone : f.tree.isDir place = false := by
    rw [FileTree.isDir, ← List.append_nil place, hfree]
    rfl
  have hput : Grows place f { f with tree := f.tree.put place .dir } :=
    .put List.prefix_rfl hplace hnone _
  have hfrom := hput.dirs m hm
  have hothers : ∀ l, ¬ place <+: l →
      ((f.tree.put place .dir).copyAll m place).get? l = f.tree.get? l := fun l hl =>
    (FileTree.get?_copyAll_of_not_prefix hfrom hl).trans (hput.others l hl)
  refine ⟨rfl, fun h => FileTree.nodup_copyAll (hput.nodup h) hfrom, hothers, fun l hl => ?_⟩
  rw [FileTree.isDir_iff] at hl ⊢
  refine (hothers l ?_).trans hl
  rintro ⟨way, rfl⟩
  rw [hfree way] at hl
  cases hl

theorem locate?_eq (h : Grows place f f') (hpath : f.tree.locate? f.here path = some l) :
    f'.tree.locate? f'.here path = some l := by
  rw [h.here]
  exact FileTree.locate?_mono h.dirs hpath

end Grows

theorem exists_of_write? {node : Node} {f' : Files} (h : f.write? path node = some f') :
    ∃ l, f.tree.locate? f.here path = some l ∧ l ≠ [] ∧ f.tree.isDir l.dropLast ∧
      f.tree.isDir l = false ∧ f' = { f with tree := f.tree.put l node } := by
  obtain ⟨l, hl, hwrite⟩ := Option.bind_eq_some_iff.1 h
  grind

theorem exists_grows_of_makeDir? {f' : Files} (h : f.makeDir? path = some f') :
    ∃ place, Grows place f f' := by
  obtain ⟨l, -, hmake⟩ := Option.bind_eq_some_iff.1 h
  split at hmake
  · cases hmake
  · rename_i hfree
    simp only [Bool.or_eq_true, not_or, Bool.not_eq_true, Option.isSome_eq_false_iff,
      Option.isNone_iff_eq_none] at hfree
    obtain rfl := Option.some.inj hmake
    have hne : l ≠ [] := by
      rintro rfl
      cases hfree.1
    have hnone : f.tree.isDir l = false := by
      rw [FileTree.isDir, hfree.1]
      rfl
    exact ⟨l, .put List.prefix_rfl hne hnone _⟩

/-! ## Directories and the files in them -/

/-- A path leads to a directory. -/
def Reaches (f : Files) (path : String) (l : Location) : Prop :=
  f.tree.locate? f.here path = some l ∧ f.tree.isDir l = true

namespace Reaches

variable {f' : Files} {place : Location} {n : String} {ways : List String}

theorem grows (h : f.Reaches path l) (hgrows : Grows place f f') : f'.Reaches path l :=
  ⟨hgrows.locate?_eq h.1, hgrows.dirs l h.2⟩

theorem contains (h : f.Reaches path l) : f.contains path := by
  rw [Files.contains, node?, h.1, Option.bind_some, FileTree.isDir_iff.1 h.2]
  rfl

theorem locate?_join (h : f.Reaches path l) (hn : IsName n) :
    f.tree.locate? f.here (join path n) = some (l ++ [n]) := by
  rw [FileTree.locate?_join (FileTree.isEmpty_of_locate? h.1) hn, h.1, Option.bind_some,
    FileTree.walk?_cons h.2 hn.1]
  rfl

/-- What stands below a directory is looked up by its way from there. -/
theorem locate?_below (h : f.Reaches path l) (hpath : Bare path)
    (hways : ∀ n ∈ ways, IsName n) {m : Location}
    (hm : f.tree.locate? f.here (below path ways) = some m) : m = l ++ ways := by
  rw [FileTree.locate?_below hpath hways, h.1, Option.bind_some] at hm
  exact FileTree.walk?_plain (fun n hn => (hways n hn).1) hm

end Reaches

/-- The directory to which a path leads holds a file. -/
def HoldsFile (f : Files) (path n : String) (content : Bytes) : Prop :=
  ∃ l, f.Reaches path l ∧ f.tree.get? (l ++ [n]) = some (.file content)

namespace HoldsFile

variable {f' : Files} {n n' q : String} {content : Bytes} {node : Node}

theorem read?_eq (h : f.HoldsFile path n content) (hn : IsName n) :
    f.read? (join path n) = some content := by
  obtain ⟨l, hreaches, hget⟩ := h
  rw [read?, node?, hreaches.locate?_join hn, Option.bind_some, hget]

theorem of_write? (hreaches : f.Reaches path l) (hn : IsName n)
    (h : f.write? (join path n) (.file content) = some f') : f'.HoldsFile path n content := by
  obtain ⟨m, hm, hne, -, hfile, rfl⟩ := exists_of_write? h
  obtain rfl := Option.some.inj ((hreaches.locate?_join hn).symm.trans hm)
  refine ⟨l, hreaches.grows (.put List.prefix_rfl hne hfile _), ?_⟩
  rw [FileTree.get?_put hne, if_pos rfl]

theorem write? (h : f.HoldsFile path n content) (hq : q.isEmpty = false) (hn' : IsName n')
    (hne : n' ≠ n) (hwrite : f.write? (join q n') node = some f') :
    f'.HoldsFile path n content := by
  obtain ⟨l, hreaches, hget⟩ := h
  obtain ⟨m, hm, hm', -, hfile, rfl⟩ := exists_of_write? hwrite
  refine ⟨l, hreaches.grows (.put List.prefix_rfl hm' hfile _), ?_⟩
  rw [FileTree.locate?_join hq hn'] at hm
  obtain ⟨d, -, hd⟩ := Option.bind_eq_some_iff.1 hm
  have hplain : ∀ x ∈ [n'], Plain x := by simpa using hn'.1
  obtain rfl := FileTree.walk?_plain hplain hd
  have hother : d ++ [n'] ≠ l ++ [n] := fun heq => hne (by simpa using (List.append_inj' heq rfl).2)
  rw [FileTree.get?_put hm', if_neg hother, hget]

end HoldsFile

end Files

end AddonBuilder
