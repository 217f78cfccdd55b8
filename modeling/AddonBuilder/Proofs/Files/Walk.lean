import AddonBuilder.Proofs.Files.Tree

/-!
# Walks over a directory

In a sound tree whose names are names, a walk lists exactly the paths that go on from the directory
by plain names, lead to a file, and pass only through kept directories (`Files.exists_of_mem_walk`,
`Files.exists_visit`).
-/

namespace AddonBuilder

open List
open AddonBuilder.Path (Plain)

namespace Path

variable {way : List String} {n p : String}

/-- A name that stands between two slashes and leads one level down. -/
def IsName (n : String) : Prop := Plain n ∧ '/' ∉ n.toList

instance (n : String) : Decidable (IsName n) := inferInstanceAs (Decidable (_ ∧ _))

/-- A path to which a name is added with a slash. -/
def Bare (p : String) : Prop := p.isEmpty = false ∧ Text.endsWith p "/" = false

instance (p : String) : Decidable (Bare p) := inferInstanceAs (Decidable (_ ∧ _))

/-- A path followed by names. -/
def below (p : String) (way : List String) : String := Text.joinStrings "/" (p :: way)

@[simp] theorem below_nil (p : String) : below p [] = p := rfl

theorem below_cons (p n : String) (way : List String) :
    below p (n :: way) = below (p ++ "/" ++ n) way := rfl

theorem below_append (p : String) (way more : List String) :
    below p (way ++ more) = below (below p way) more := by
  induction way generalizing p with
  | nil => rfl
  | cons n way ih => rw [cons_append, below_cons, ih, below_cons]

theorem below_eq (p : String) (hway : way ≠ []) :
    below p way = p ++ "/" ++ Text.joinStrings "/" way := by
  obtain ⟨n, way, rfl⟩ := exists_cons_of_ne_nil hway
  clear hway
  induction way generalizing n with
  | nil => rfl
  | cons n' way ih =>
    have hfront : Text.joinStrings "/" (n :: n' :: way) =
        Text.joinStrings "/" ((n ++ "/" ++ n') :: way) := rfl
    have hsame : below p (n :: n' :: way) = below p ((n ++ "/" ++ n') :: way) := by
      rw [below_cons, below_cons, below_cons]
      simp only [String.append_assoc]
    rw [hsame, ih, hfront]

theorem IsName.isEmpty (hn : IsName n) : n.isEmpty = false := by
  rw [← Bool.not_eq_true, String.isEmpty_iff]
  exact hn.1.1

theorem IsName.isAbsolute (hn : IsName n) : isAbsolute n = false := by
  rw [← Bool.not_eq_true, isAbsolute_iff]
  intro hhead
  exact hn.2 (mem_of_mem_head? hhead)

theorem IsName.bare_append (hn : IsName n) (p : String) : Bare (p ++ n) := by
  have hne : n.toList ≠ [] := fun hnil => hn.1.1 (String.toList_inj.1 hnil)
  constructor
  · rw [← Bool.not_eq_true, String.isEmpty_iff, ← String.toList_inj, String.toList_append]
    exact fun hempty => hne (append_eq_nil_iff.1 hempty).2
  · rw [← Bool.not_eq_true, Text.endsWith_iff]
    intro hend
    obtain ⟨t, ht⟩ := hend
    have hlast : (p ++ n).toList.getLast? = (t ++ "/").toList.getLast? := by rw [ht]
    rw [String.toList_append, getLast?_append_of_ne_nil _ hne, String.toList_append] at hlast
    exact hn.2 (mem_of_getLast? (hlast.trans (by simp)))

theorem Bare.getLast?_ne (hp : Bare p) : p.toList.getLast? ≠ some '/' := by
  intro hlast
  obtain ⟨letters, hletters⟩ := getLast?_eq_some_iff.1 hlast
  have hend : Text.endsWith p "/" := by
    refine Text.endsWith_iff.2 ⟨String.ofList letters, ?_⟩
    rw [← String.toList_inj, hletters, String.toList_append, String.toList_ofList]
    rfl
  rw [hp.2] at hend
  cases hend

theorem Bare.join (hp : Bare p) (hn : IsName n) : join p n = p ++ "/" ++ n := by
  rw [Path.join, hn.isAbsolute, hp.1, hp.2]
  rfl

theorem IsName.bare_join (hn : IsName n) (p : String) : Bare (Path.join p n) := by
  rw [Path.join, hn.isAbsolute, if_neg (by decide)]
  split
  · exact hn.bare_append p
  · exact hn.bare_append (p ++ "/")

theorem Bare.below (hp : Bare p) (hway : ∀ n ∈ way, IsName n) : Bare (below p way) := by
  induction way generalizing p with
  | nil => exact hp
  | cons n way ih =>
    rw [below_cons]
    exact ih ((hway n mem_cons_self).bare_append (p ++ "/")) fun x hx =>
      hway x (mem_cons_of_mem _ hx)

theorem bare_below (hnames : ∀ n ∈ p :: way, IsName n) : Bare (below p way) := by
  have hp := (hnames p mem_cons_self).bare_append ""
  rw [String.empty_append] at hp
  exact hp.below fun n hn => hnames n (mem_cons_of_mem _ hn)

theorem Bare.joinAll (hp : Bare p) (hway : ∀ n ∈ way, IsName n) :
    joinAll p way = Path.below p way := by
  induction way generalizing p with
  | nil => rfl
  | cons n way ih =>
    have hn := hway n mem_cons_self
    have hbare : Bare (p ++ "/" ++ n) := hn.bare_append (p ++ "/")
    rw [below_cons, ← ih hbare fun x hx => hway x (mem_cons_of_mem _ hx), ← hp.join hn]
    rfl

theorem joinAll_concat (p : String) (way : List String) (n : String) :
    joinAll p (way ++ [n]) = Path.join (joinAll p way) n := foldl_append

theorem Bare.join_below (hp : Bare p) (hway : ∀ x ∈ way, IsName x) (hn : IsName n) :
    Path.join (Path.below p way) n = Path.below p (way ++ [n]) := by
  rw [(hp.below hway).join hn, below_append]
  rfl

theorem isAbsolute_below (hp : p.isEmpty = false) (way : List String) :
    isAbsolute (below p way) = isAbsolute p := by
  by_cases hne : way = []
  · rw [hne, below_nil]
  · rw [below_eq p hne, String.append_assoc, isAbsolute_append hp]

theorem names_below (p : String) (hway : ∀ n ∈ way, IsName n) :
    names (below p way) = names p ++ way := by
  by_cases hne : way = []
  · rw [hne, below_nil, append_nil]
  · rw [below_eq p hne, names_append_slash, names_joinStrings hne fun n hn => (hway n hn).2]

end Path

open AddonBuilder.Path (IsName Bare below)

namespace FileTree

/-- All places are made of names. -/
def Named (t : FileTree) : Prop := ∀ l ∈ Assoc.keys t, ∀ n ∈ l, IsName n

instance (t : FileTree) : Decidable t.Named := inferInstanceAs (Decidable (∀ _ ∈ _, _))

variable {t : FileTree} {l way : Location} {node : Node}

theorem mem_children {n : String} : n ∈ t.children l ↔ l ++ [n] ∈ Assoc.keys t := by
  unfold children
  rw [sortedStrings_eq, mem_insertionSort, mem_filterMap, Assoc.keys, mem_map]
  constructor
  · rintro ⟨⟨m, node⟩, hm, hsome⟩
    refine ⟨(m, node), hm, ?_⟩
    dsimp only at hsome
    split at hsome
    · rename_i hbelow
      cases hsome
      exact Text.dropStart?_eq_some_iff.1 hbelow
    · cases hsome
  · rintro ⟨⟨m, node⟩, hm, rfl⟩
    refine ⟨(l ++ [n], node), hm, ?_⟩
    have hbelow : Location.below? l (l ++ [n]) = some [n] := Text.dropStart?_eq_some_iff.2 rfl
    simp [hbelow]

theorem mem_descendants : (way, node) ∈ t.descendants l ↔ way ≠ [] ∧ (l ++ way, node) ∈ t := by
  unfold descendants
  rw [sortBy_eq, mem_insertionSort, mem_filterMap]
  constructor
  · rintro ⟨⟨m, node'⟩, hm, hsome⟩
    dsimp only at hsome
    split at hsome
    · rename_i name rest hbelow
      cases hsome
      obtain rfl := Text.dropStart?_eq_some_iff.1 hbelow
      exact ⟨cons_ne_nil _ _, hm⟩
    · cases hsome
  · rintro ⟨hway, hm⟩
    refine ⟨_, hm, ?_⟩
    obtain ⟨name, rest, rfl⟩ := exists_cons_of_ne_nil hway
    have hbelow : Location.below? l (l ++ name :: rest) = some (name :: rest) :=
      Text.dropStart?_eq_some_iff.2 rfl
    simp [hbelow]

theorem Sound.get?_eq_some_iff (ht : t.Sound) (hl : l ≠ []) :
    t.get? l = some node ↔ (l, node) ∈ t := by
  rw [get?, if_neg (by simpa using hl), Assoc.get?_eq_some_iff ht.nodup]

theorem Sound.isDir_of_concat (ht : t.Sound) {n : String}
    (hget : (t.get? (l ++ [n])).isSome) : t.isDir l := by
  have := ht.isDir_dropLast hget
  rwa [dropLast_concat] at this

theorem isSome_of_isDir (h : t.isDir l) : (t.get? l).isSome := by
  rw [isDir_iff.1 h]
  rfl

theorem Sound.isDir_of_append (ht : t.Sound) (hget : t.isDir (l ++ way)) : t.isDir l := by
  induction way using reverseRecOn with
  | nil => rwa [append_nil] at hget
  | append_singleton way n ih =>
    rw [← append_assoc] at hget
    exact ih (ht.isDir_of_concat (isSome_of_isDir hget))

/-- In a sound tree every location on the way to a node is a directory, so the way can be walked. -/
theorem Sound.walk?_eq (ht : t.Sound) (hway : ∀ n ∈ way, Plain n)
    (hget : (t.get? (l ++ way)).isSome) : t.walk? l way = some (l ++ way) := by
  induction way using reverseRecOn with
  | nil => simp [walk?]
  | append_singleton way n ih =>
    rw [← append_assoc] at hget
    have hdir := ht.isDir_of_concat hget
    rw [walk?_append_eq, ih (fun x hx => hway x (mem_append_left _ hx))
      (isSome_of_isDir hdir), Option.bind_some, walk?_cons hdir (hway n (by simp)),
      walk?, append_assoc]

theorem locate?_below {d : String} (hd : Bare d) {way : List String} (hway : ∀ n ∈ way, IsName n)
    (here : Location) :
    t.locate? here (below d way) = (t.locate? here d).bind fun l => t.walk? l way := by
  unfold locate?
  rw [(hd.below hway).1, hd.1, Path.names_below d hway, walk?_append_eq, Path.isAbsolute_below hd.1]
  rfl

end FileTree

namespace Files

variable {f : Files} {d : String} {keep : String → Bool}

theorem node?_below_iff (ht : f.tree.Sound) (hd : Bare d) {way : List String}
    (hway : ∀ n ∈ way, IsName n) {node : Node} :
    f.node? (below d way) = some node ↔
      ∃ l, f.tree.locate? f.here d = some l ∧ f.tree.get? (l ++ way) = some node := by
  rw [node?, FileTree.locate?_below hd hway, Option.bind_assoc, Option.bind_eq_some_iff]
  constructor
  · rintro ⟨l, hl, hnode⟩
    obtain ⟨m, hm, hget⟩ := Option.bind_eq_some_iff.1 hnode
    rw [FileTree.walk?_plain (fun n hn => (hway n hn).1) hm] at hget
    exact ⟨l, hl, hget⟩
  · rintro ⟨l, hl, hget⟩
    refine ⟨l, hl, ?_⟩
    rw [ht.walk?_eq (fun n hn => (hway n hn).1) (by rw [hget]; rfl), Option.bind_some, hget]

theorem isFile_iff {path : String} :
    f.isFile path ↔ ∃ node, f.node? path = some node ∧ node ≠ .dir := by
  unfold isFile
  cases f.node? path with
  | none => simp
  | some node => cases node <;> simp

theorem isFile_of_read? {path : String} {content : Bytes} (h : f.read? path = some content) :
    f.isFile path := by
  unfold read? at h
  split at h
  · rename_i hnode
    exact isFile_iff.2 ⟨_, hnode, nofun⟩
  · cases h

/-- The ways from a directory to those that a walk enters, in the order of the walk. -/
def ways (f : Files) (keep : String → Bool) (l : Location) : List Location :=
  [] :: (f.tree.descendants l).filterMap fun (way, node) =>
    if node == .dir && way.all keep then some way else none

theorem mem_ways (ht : f.tree.Sound) {l way : Location} (hl : f.tree.isDir l) :
    way ∈ f.ways keep l ↔ f.tree.isDir (l ++ way) ∧ ∀ n ∈ way, keep n := by
  by_cases hne : way = []
  · simp [ways, hne, hl]
  have hget : f.tree.isDir (l ++ way) ↔ (way, .dir) ∈ f.tree.descendants l := by
    rw [FileTree.isDir_iff, ht.get?_eq_some_iff (by simp [hne]),
      FileTree.mem_descendants, and_iff_right hne]
  rw [hget, ways, mem_cons, or_iff_right hne, mem_filterMap]
  constructor
  · rintro ⟨⟨way', node⟩, hmem, hsome⟩
    dsimp only at hsome
    rw [Option.ite_none_right_eq_some, Bool.and_eq_true, beq_iff_eq, all_eq_true] at hsome
    obtain ⟨⟨rfl, hkeep⟩, hway⟩ := hsome
    obtain rfl := Option.some.inj hway
    exact ⟨hmem, hkeep⟩
  · rintro ⟨hmem, hkeep⟩
    exact ⟨_, hmem, if_pos (by simpa using hkeep)⟩

/-- What a walk meets in a directory. -/
def visit (f : Files) (keep : String → Bool) (d : String) (l way : Location) : Visit where
  path := Path.joinAll d way
  dirs := (f.tree.children (l ++ way)).filter fun n =>
    f.tree.isDir (l ++ way ++ [n]) && keep n
  files := (f.tree.children (l ++ way)).filter fun n => !f.tree.isDir (l ++ way ++ [n])

@[simp] theorem visit_path (l way : Location) :
    (f.visit keep d l way).path = Path.joinAll d way := rfl

theorem walk_eq {l : Location} (hl : f.tree.locate? f.here d = some l) :
    f.walk keep d = if f.tree.isDir l then (f.ways keep l).map (f.visit keep d l) else [] := by
  unfold walk
  rw [hl]
  cases h : f.tree.isDir l <;> simp only [h] <;> rfl

/-- A directory that a walk comes by, and the files in it. -/
theorem mem_walk_iff (ht : f.tree.Sound) {v : Visit} :
    v ∈ f.walk keep d ↔ ∃ l way, f.tree.locate? f.here d = some l ∧
      f.tree.isDir (l ++ way) ∧ (∀ n ∈ way, keep n) ∧
      v = f.visit keep d l way := by
  cases hl : f.tree.locate? f.here d with
  | none => simp [walk, hl]
  | some l =>
    rw [walk_eq hl]
    simp only [Option.some.injEq, exists_and_left, exists_eq_left']
    split
    · rename_i hdir
      simp only [mem_map, mem_ways ht hdir, and_assoc, eq_comm (a := v)]
    · rename_i hnone
      simp only [not_mem_nil, false_iff]
      rintro ⟨way, hway, -⟩
      exact hnone (ht.isDir_of_append hway)

/-- **What a walk lists is a file below the directory.** -/
theorem exists_of_mem_walk (ht : f.tree.Sound) (hnamed : f.tree.Named) (hd : Bare d) {v : Visit}
    (hv : v ∈ f.walk keep d) {n : String} (hn : n ∈ v.files) :
    ∃ way, (∀ x ∈ way, IsName x ∧ keep x) ∧ IsName n ∧ v.path = below d way ∧
      Path.join v.path n = below d (way ++ [n]) ∧ f.isFile (below d (way ++ [n])) := by
  obtain ⟨l, way, hl, -, hkeep, rfl⟩ := (mem_walk_iff ht).1 hv
  obtain ⟨hchild, hfile⟩ := mem_filter.1 hn
  rw [FileTree.mem_children] at hchild
  have hnames : ∀ x ∈ way ++ [n], IsName x := fun x hx =>
    hnamed _ hchild x (by rw [append_assoc]; exact mem_append_right _ hx)
  have hway : ∀ x ∈ way, IsName x := fun x hx => hnames x (mem_append_left _ hx)
  have hpath : Path.joinAll d way = below d way := hd.joinAll hway
  refine ⟨way, fun x hx => ⟨hway x hx, hkeep x hx⟩, hnames n (by simp), hpath, ?_, ?_⟩
  · rw [visit_path, hpath, hd.join_below hway (hnames n (by simp))]
  · obtain ⟨⟨m, node⟩, hmem, hm⟩ := mem_map.1 hchild
    obtain rfl : m = l ++ way ++ [n] := hm
    have hget := (ht.get?_eq_some_iff (by simp)).2 hmem
    refine isFile_iff.2 ⟨node, (node?_below_iff ht hd hnames).2 ⟨l, hl, ?_⟩, ?_⟩
    · rw [← append_assoc, hget]
    · intro hnode
      rw [hnode] at hget
      rw [FileTree.isDir_iff.2 hget] at hfile
      cases hfile

/-- **A file below the directory is listed by a walk** if every directory on the way to it is
kept. -/
theorem exists_visit (ht : f.tree.Sound) (hd : Bare d) {way : List String} {n : String}
    (hway : ∀ x ∈ way, IsName x ∧ keep x) (hn : IsName n)
    (hfile : f.isFile (below d (way ++ [n]))) :
    ∃ v ∈ f.walk keep d, v.path = below d way ∧ n ∈ v.files := by
  have hnames : ∀ x ∈ way ++ [n], IsName x := by
    intro x hx
    rcases mem_append.1 hx with hx | hx
    · exact (hway x hx).1
    · rwa [mem_singleton.1 hx]
  obtain ⟨node, hnode, hne⟩ := isFile_iff.1 hfile
  obtain ⟨l, hl, hget⟩ := (node?_below_iff ht hd hnames).1 hnode
  rw [← append_assoc] at hget
  have hdir := ht.isDir_of_concat (by rw [hget]; rfl)
  refine ⟨_, (mem_walk_iff ht).2 ⟨l, way, hl, hdir, fun x hx => (hway x hx).2, rfl⟩,
    hd.joinAll fun x hx => (hway x hx).1, mem_filter.2 ⟨?_, ?_⟩⟩
  · rw [FileTree.mem_children]
    exact mem_map.2 ⟨_, (ht.get?_eq_some_iff (by simp)).1 hget, rfl⟩
  · rw [Bool.not_eq_true', ← Bool.not_eq_true, FileTree.isDir_iff, hget]
    exact fun h => hne (Option.some.inj h)

theorem isDir_iff {path : String} : f.isDir path ↔ f.node? path = some .dir := by
  rw [isDir, beq_iff_eq]

/-- A directory below another one to which a walk leads. -/
def Passes (f : Files) (keep : String → Bool) (d : String) (way : List String) : Prop :=
  way ≠ [] ∧ (∀ n ∈ way, IsName n ∧ keep n = true) ∧ f.isDir (below d way) = true

/-- **The directories that a walk lists are those that it leads to.** -/
theorem exists_mem_dirs_iff (ht : f.tree.Sound) (hnamed : f.tree.Named) (hd : Bare d)
    {path : String} : (∃ v ∈ f.walk keep d, ∃ n ∈ v.dirs, path = Path.join v.path n) ↔
      ∃ way, f.Passes keep d way ∧ path = below d way := by
  constructor
  · rintro ⟨v, hv, n, hn, rfl⟩
    obtain ⟨l, way, hl, -, hkeep, rfl⟩ := (mem_walk_iff ht).1 hv
    obtain ⟨hchild, hn⟩ := mem_filter.1 hn
    obtain ⟨hdir, hn⟩ := Bool.and_eq_true_iff.1 hn
    have hnames : ∀ x ∈ way ++ [n], IsName x := fun x hx =>
      hnamed _ (FileTree.mem_children.1 hchild) x (by rw [append_assoc]; exact mem_append_right _ hx)
    refine ⟨way ++ [n], ⟨by simp, fun x hx => ⟨hnames x hx, ?_⟩, ?_⟩, ?_⟩
    · rcases mem_append.1 hx with hx | hx
      · exact hkeep x hx
      · rwa [mem_singleton.1 hx]
    · rw [isDir_iff, node?_below_iff ht hd hnames]
      exact ⟨l, hl, by rw [← append_assoc, FileTree.isDir_iff.1 hdir]⟩
    · rw [← hd.joinAll hnames, Path.joinAll_concat, visit_path]
  · rintro ⟨way, ⟨hne, hway, hdir⟩, rfl⟩
    have hnames : ∀ x ∈ way, IsName x := fun x hx => (hway x hx).1
    obtain ⟨l, hl, hget⟩ := (node?_below_iff ht hd hnames).1 (isDir_iff.1 hdir)
    obtain ⟨before, n, rfl⟩ := (eq_nil_or_concat' way).resolve_left hne
    rw [← append_assoc] at hget
    have hbefore := ht.isDir_of_concat (by rw [hget]; rfl)
    refine ⟨_, (mem_walk_iff ht).2 ⟨l, before, hl, hbefore,
      fun x hx => (hway x (mem_append_left _ hx)).2, rfl⟩, n, mem_filter.2 ⟨?_, ?_⟩, ?_⟩
    · rw [FileTree.mem_children]
      exact mem_map.2 ⟨_, (ht.get?_eq_some_iff (by simp)).1 hget, rfl⟩
    · rw [Bool.and_eq_true_iff]
      exact ⟨FileTree.isDir_iff.2 hget, (hway n (by simp)).2⟩
    · rw [← hd.joinAll hnames, Path.joinAll_concat, visit_path]

end Files

end AddonBuilder
