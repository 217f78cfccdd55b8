import AddonBuilder.Application.Device
import AddonBuilder.Proofs.Files.Growth
import AddonBuilder.Proofs.Session.Outcome

/-!
# Pushing a profile to a device

A walk comes to a directory before it comes to what the directory holds (`Files.pairwise_ways`), and
the commands of an upload follow the walk.
-/

namespace AddonBuilder

open List Session
open AddonBuilder.Path (IsName Bare below joinAll)

theorem Location.le_iff (a b : Location) : le a b ↔ a ≤ b := by
  rw [le, Bool.not_eq_true', ← Bool.not_eq_true, lex_eq_true_iff_lt, not_lt]

namespace FileTree

variable {t : FileTree} {l : Location}

/-- What is taken from nodes below a location, and tells their ways, is told apart by them. -/
theorem Sound.pairwise_filterMap (ht : t.Sound) {β : Type} {g : Location × Node → Option β}
    {w : β → Location} (hg : ∀ x b, g x = some b → Location.below? l x.1 = some (w b)) :
    (t.filterMap g).Pairwise fun a b => w a ≠ w b := by
  refine (pairwise_map.1 ht.nodup).filterMap _ fun x y hne a ha b hb heq => hne ?_
  rw [Text.dropStart?_eq_some_iff.1 (hg x a ha), Text.dropStart?_eq_some_iff.1 (hg y b hb), heq]

theorem Sound.nodup_children (ht : t.Sound) (l : Location) : (t.children l).Nodup := by
  rw [children, sortedStrings_eq]
  refine (perm_insertionSort ..).nodup_iff.2 ((ht.pairwise_filterMap (l := l) (w := fun n => [n])
    fun x n h => ?_).imp fun hne heq => hne (by rw [heq]))
  dsimp only at h
  split at h
  · cases h
    assumption
  · cases h

theorem Named.isName_of_mem (ht : t.Named) (hget : (t.get? l).isSome) : ∀ n ∈ l, IsName n := by
  intro n hn
  exact ht l ((mem_keys_iff (ne_nil_of_mem hn)).2 hget) n hn

theorem Sound.pairwise_descendants (ht : t.Sound) (l : Location) :
    (t.descendants l).Pairwise fun x y => x.1 ≠ y.1 ∧ x.1 ≤ y.1 := by
  rw [descendants, sortBy_eq]
  simp only [Location.le_iff]
  refine .and ((perm_insertionSort ..).symm.pairwise (ht.pairwise_filterMap (l := l) fun x y h => ?_)
    fun h => h.symm) (pairwise_insertionSort _ _)
  split at h
  · cases h
    assumption
  · cases h

end FileTree

namespace Files

variable {f : Files} {d : String} {l way : Location} {keep : String → Bool}

/-- **A walk enters a directory before those below it**, and only once. -/
theorem pairwise_ways (hsound : f.tree.Sound) (l : Location) :
    (f.ways keep l).Pairwise fun a b => ¬ b <+: a := by
  have hway : ∀ {x : Location × Node} {a : Location},
      (if x.2 == .dir && x.1.all keep then some x.1 else none) = some a → x.1 = a := by
    intro x a h
    exact Option.some.inj (Option.ite_none_right_eq_some.1 h).2
  refine pairwise_cons.2 ⟨fun b hb hprefix => ?_, ?_⟩
  · obtain ⟨x, hx, hb⟩ := mem_filterMap.1 hb
    obtain rfl := hway hb
    exact (FileTree.mem_descendants.1 hx).1 (prefix_nil.1 hprefix)
  · refine (hsound.pairwise_descendants l).filterMap _ fun x y h a ha b hb hprefix => ?_
    obtain rfl := hway ha
    obtain rfl := hway hb
    exact h.1 (le_antisymm h.2 (not_lt.1 hprefix.le))

theorem locate?_joinAll (h : f.Reaches d l) (hway : ∀ n ∈ way, IsName n) :
    f.tree.locate? f.here (joinAll d way) = f.tree.walk? l way := by
  have hd := FileTree.isEmpty_of_locate? h.1
  induction way using reverseRecOn with
  | nil => exact h.1
  | append_singleton way n ih =>
    obtain ⟨hway, hn⟩ := forall_mem_append.1 hway
    have hempty : (joinAll d way).isEmpty = false := by
      rcases eq_nil_or_concat' way with rfl | ⟨way', n', rfl⟩
      · exact hd
      · rw [Path.joinAll_concat]
        exact ((hway n' (by simp)).bare_join _).1
    rw [Path.joinAll_concat, FileTree.locate?_join hempty (by simpa using hn), ih hway,
      FileTree.walk?_append_eq]

theorem node?_joinAll (hsound : f.tree.Sound) (h : f.Reaches d l) (hway : ∀ n ∈ way, IsName n) :
    f.node? (joinAll d way) = f.tree.get? (l ++ way) := by
  have hplain : ∀ n ∈ way, Path.Plain n := fun n hn => (hway n hn).1
  rw [node?, locate?_joinAll h hway]
  cases hget : f.tree.get? (l ++ way) with
  | none =>
    refine Option.bind_eq_none_iff.2 fun m hm => ?_
    rw [FileTree.walk?_plain hplain hm, hget]
  | some node => rw [hsound.walk?_eq hplain (by rw [hget]; rfl), Option.bind_some, hget]

end Files

namespace Application

variable {f : Files} {d bridge : String} {l way : Location}

/-- A command of an upload: the way below the profile at which a directory is made or a file put. -/
structure Upload where
  way : Location
  isDir : Bool

/-- What is noted when the command is carried out. -/
def Upload.lines (bridge d : String) (u : Upload) : List String :=
  if u.isDir then
    [Text.joinStrings " " [bridge, "shell", "mkdir " ++ below deviceProfile u.way]]
  else
    [Text.joinStrings " " [bridge, "push", joinAll d u.way, below deviceProfile u.way], "(wait)"]

/-- The commands for what a directory holds, its files first. -/
def uploadsIn (f : Files) (l way : Location) : List Upload :=
  let isDir n := f.tree.isDir (l ++ way ++ [n])
  let names := f.tree.children (l ++ way)
  (names.filter (!isDir ·) ++ names.filter isDir).map fun n =>
    ⟨way ++ [n], isDir n⟩

def uploads (f : Files) (l : Location) : List Upload :=
  (f.ways (fun _ => true) l).flatMap (uploadsIn f l)

theorem uploadsIn_perm (f : Files) (l way : Location) : (uploadsIn f l way).Perm
    ((f.tree.children (l ++ way)).map fun n =>
      ⟨way ++ [n], f.tree.isDir (l ++ way ++ [n])⟩) :=
  (perm_append_comm.trans (filter_append_perm _ _)).map _

theorem mem_uploadsIn {u : Upload} : u ∈ uploadsIn f l way ↔ ∃ n ∈ f.tree.children (l ++ way),
    (⟨way ++ [n], f.tree.isDir (l ++ way ++ [n])⟩ : Upload) = u := by
  rw [(uploadsIn_perm f l way).mem_iff, mem_map]

/-- **There is a command for everything below the profile.** -/
theorem mem_uploads (hsound : f.tree.Sound) (hl : f.tree.isDir l) {u : Upload} :
    u ∈ uploads f l ↔ u.way ≠ [] ∧ (f.tree.get? (l ++ u.way)).isSome ∧
      u.isDir = f.tree.isDir (l ++ u.way) := by
  simp only [uploads, mem_flatMap, Files.mem_ways hsound hl, mem_uploadsIn, FileTree.mem_children]
  constructor
  · rintro ⟨way, -, n, hn, rfl⟩
    rw [FileTree.mem_keys_iff (by simp)] at hn
    simpa using hn
  · rintro ⟨hne, hget, hdir⟩
    obtain ⟨way, n, hway⟩ := (eq_nil_or_concat' u.way).resolve_left hne
    rw [hway, ← append_assoc] at hget hdir
    refine ⟨way, ⟨hsound.isDir_of_concat hget, fun _ _ => trivial⟩, n,
      (FileTree.mem_keys_iff (by simp)).2 hget, ?_⟩
    rw [← hdir, ← hway]

/-- The commands, told by paths. -/
theorem mem_uploads_iff (hsound : f.tree.Sound) (hnamed : f.tree.Named) (h : f.Reaches d l)
    {u : Upload} : u ∈ uploads f l ↔ u.way ≠ [] ∧ (∀ n ∈ u.way, IsName n) ∧
      ∃ node, f.node? (joinAll d u.way) = some node ∧ u.isDir = (node == .dir) := by
  rw [mem_uploads hsound h.2]
  constructor
  · rintro ⟨hne, hget, hdir⟩
    have hway : ∀ n ∈ u.way, IsName n := fun n hn =>
      hnamed.isName_of_mem hget n (mem_append_right l hn)
    obtain ⟨node, hnode⟩ := Option.isSome_iff_exists.1 hget
    refine ⟨hne, hway, node, by rw [Files.node?_joinAll hsound h hway, hnode], ?_⟩
    rw [hdir, FileTree.isDir, hnode]
    rfl
  · rintro ⟨hne, hway, node, hnode, hdir⟩
    rw [Files.node?_joinAll hsound h hway] at hnode
    refine ⟨hne, by rw [hnode]; rfl, ?_⟩
    rw [hdir, FileTree.isDir, hnode]
    rfl

/-- **Nothing is put below a place before the command that goes to it**, and each command goes to a
place of its own. -/
theorem pairwise_uploads (hsound : f.tree.Sound) (l : Location) :
    (uploads f l).Pairwise fun u v => ¬ v.way <+: u.way := by
  rw [uploads, pairwise_flatMap]
  constructor
  · intro way _
    have hapart : (uploadsIn f l way).Pairwise fun u v => u.way ≠ v.way := by
      refine (uploadsIn_perm f l way).symm.pairwise ?_ fun h => h.symm
      exact pairwise_map.2 ((hsound.nodup_children _).imp fun hne h => hne (by simpa using h))
    refine hapart.imp_of_mem fun {u v} hu hv hne hbelow => hne ?_
    obtain ⟨n, -, rfl⟩ := mem_uploadsIn.1 hu
    obtain ⟨m, -, rfl⟩ := mem_uploadsIn.1 hv
    exact (hbelow.eq_of_length (by simp)).symm
  · refine (Files.pairwise_ways hsound l).imp fun {a b} hab u hu v hv hprefix => hab ?_
    obtain ⟨n, -, rfl⟩ := mem_uploadsIn.1 hu
    obtain ⟨m, -, rfl⟩ := mem_uploadsIn.1 hv
    rcases prefix_concat_iff.1 hprefix with heq | hprefix
    · exact (append_inj' heq rfl).1 ▸ prefix_rfl
    · exact (prefix_append _ _).trans hprefix

theorem nodup_uploads (hsound : f.tree.Sound) (l : Location) : (uploads f l).Nodup :=
  (pairwise_uploads hsound l).imp fun h heq => h (by rw [heq])

/-- A directory is made before any command that goes below it. -/
theorem mem_before_uploads (hsound : f.tree.Sound) (hl : f.tree.isDir l) {u : Upload}
    {before after : List Upload} {a b : Location} (hus : uploads f l = before ++ u :: after)
    (ha : a ≠ []) (hb : b ≠ []) (hway : u.way = a ++ b) : ⟨a, true⟩ ∈ before := by
  have hu : u ∈ uploads f l := by simp [hus]
  obtain ⟨-, hget, -⟩ := (mem_uploads hsound hl).1 hu
  obtain ⟨b', n, rfl⟩ := (eq_nil_or_concat' b).resolve_left hb
  rw [hway, ← append_assoc, ← append_assoc] at hget
  have hdir := hsound.isDir_of_append (hsound.isDir_of_concat hget)
  have hmem : (⟨a, true⟩ : Upload) ∈ uploads f l := (mem_uploads hsound hl).2
    ⟨ha, FileTree.isSome_of_isDir hdir, hdir.symm⟩
  have hpairwise := pairwise_uploads hsound l
  rw [hus] at hmem hpairwise
  obtain ⟨-, hlater, -⟩ := pairwise_append.1 hpairwise
  rcases mem_append.1 hmem with hmem | hmem
  · exact hmem
  rcases mem_cons.1 hmem with rfl | hmem
  · simp at hway
  · exact absurd ⟨_, hway.symm⟩ ((pairwise_cons.1 hlater).1 _ hmem)

/-! ## The commands in a session -/

theorem afterCommon_append (l way : List String) : Path.afterCommon l (l ++ way) = ([], way) := by
  induction l with
  | nil => cases way <;> rfl
  | cons n l ih => rw [cons_append, Path.afterCommon, if_pos rfl, ih]

/-- Where a directory of the profile has its place on the device. -/
theorem devicePlace_eq (hsound : f.tree.Sound) (hhere : ∀ n ∈ f.here, IsName n)
    (h : f.Reaches d l) (hway : ∀ n ∈ way, IsName n) (hget : (f.tree.get? (l ++ way)).isSome) :
    devicePlace f d (joinAll d way) = below deviceProfile way := by
  have hlocate : f.tree.locate? f.here (joinAll d way) = some (l ++ way) := by
    rw [Files.locate?_joinAll h hway, hsound.walk?_eq (fun n hn => (hway n hn).1) hget]
  have hrel : Path.relative (f.absolute d) (f.absolute (joinAll d way)) =
      if way.isEmpty then "." else Text.joinStrings "/" way := by
    simp only [Path.relative, Files.names_absolute hhere h.1, Files.names_absolute hhere hlocate,
      afterCommon_append, map_nil, nil_append]
  rw [devicePlace, hrel]
  cases way with
  | nil => rfl
  | cons n way =>
    have hn := hway n mem_cons_self
    have hdot : Text.joinStrings "/" (n :: way) ≠ "." := by
      intro heq
      have hnames := Path.names_joinStrings (cons_ne_nil n way) fun n hn => (hway n hn).2
      rw [heq] at hnames
      exact hn.1.2.1 (cons.inj hnames).1.symm
    have habsolute : Path.isAbsolute (Text.joinStrings "/" (n :: way)) = false :=
      (Path.isAbsolute_below hn.isEmpty way).trans hn.isAbsolute
    have hdevice : (deviceProfile.isEmpty || Text.endsWith deviceProfile "/") = false := by decide
    simp only [isEmpty_cons, Bool.false_eq_true, if_false, hdot, Path.join, habsolute, hdevice]
    exact (Path.below_eq _ (cons_ne_nil n way)).symm

section Notes

variable {α β : Type} {programs : List (String × Outcome)} {lines lines' : List String}

/-- A command that notes lines and does nothing else, where the programs are known. -/
def Notes (programs : List (String × Outcome)) (c : Command α) (lines : List String) : Prop :=
  ∀ s : Session, s.programs = programs →
    ∃ a, outcome c s = (.ok a, { s with started := s.started ++ lines })

theorem Notes.bind {c : Command α} {k : α → Command β} (h : Notes programs c lines)
    (hk : ∀ a, Notes programs (k a) lines') : Notes programs (c >>= k) (lines ++ lines') := by
  intro s hs
  obtain ⟨a, ha⟩ := h s hs
  obtain ⟨b, hb⟩ := hk a { s with started := s.started ++ lines } hs
  exact ⟨b, by rw [outcome_bind_ok ha, hb, append_assoc]⟩

theorem notes_note (line : String) : Notes programs (note line) [line] := fun _ _ => ⟨(), rfl⟩

theorem notes_pure (a : α) : Notes programs (pure a) [] := fun _ _ => ⟨a, by simp⟩

theorem Notes.forM {c : α → Command Unit} {lines : α → List String} {xs : List α}
    (h : ∀ x ∈ xs, Notes programs (c x) (lines x)) :
    Notes programs (xs.forM c) (xs.flatMap lines) := by
  induction xs with
  | nil => exact notes_pure ()
  | cons x xs ih =>
    obtain ⟨hx, hxs⟩ := forall_mem_cons.1 h
    exact hx.bind fun _ => ih hxs

/-- A program that can be started, whatever its arguments. -/
def Answers (programs : List (String × Outcome)) (program : String) : Prop :=
  ∀ args, ∀ x ∈ programs,
    Text.occursIn x.1 (Text.joinStrings " " (program :: args)) = true → x.2 ≠ .missing

theorem notes_start {program : String} (h : Answers programs program) (args : List String) :
    Notes programs (start (program :: args)) [Text.joinStrings " " (program :: args)] := by
  rintro s rfl
  have hnote : ∀ line, outcome (note line) s =
      (.ok (), { s with started := s.started ++ [line] }) := fun _ => rfl
  have hget : ∀ s : Session, outcome get s = (.ok s, s) := fun _ => rfl
  cases hfind : s.programs.find? fun x =>
      Text.occursIn x.1 (Text.joinStrings " " (program :: args)) with
  | none => exact ⟨("", 0), by simp only [start, start?, outcome_bind, hnote, hget, hfind]; rfl⟩
  | some x =>
    obtain ⟨pattern, found⟩ := x
    cases found with
    | missing => exact absurd rfl (h args _ (mem_of_find?_eq_some hfind)
        (by simpa using find?_some hfind))
    | finished output code =>
      exact ⟨(output, code), by simp only [start, start?, outcome_bind, hnote, hget, hfind]; rfl⟩

end Notes

variable {s : Session}

theorem notes_pushVisit {programs : List (String × Outcome)} (hsound : f.tree.Sound)
    (hnamed : f.tree.Named) (hhere : ∀ n ∈ f.here, IsName n) (h : f.Reaches d l)
    (hbridge : Answers programs bridge) (hdir : f.tree.isDir (l ++ way)) :
    Notes programs (pushVisit f bridge d (f.visit (fun _ => true) d l way))
      ((uploadsIn f l way).flatMap (Upload.lines bridge d)) := by
  have hget := FileTree.isSome_of_isDir hdir
  have hway : ∀ n ∈ way, IsName n := fun n hn =>
    hnamed.isName_of_mem hget n (mem_append_right l hn)
  have hremote : ∀ n ∈ f.tree.children (l ++ way),
      Path.join (below deviceProfile way) n = below deviceProfile (way ++ [n]) := by
    intro n hn
    have hbare : Bare deviceProfile := by decide
    exact hbare.join_below hway (hnamed _ (FileTree.mem_children.1 hn) n (by simp))
  have hdirs : (f.visit (fun _ => true) d l way).dirs =
      (f.tree.children (l ++ way)).filter fun n => f.tree.isDir (l ++ way ++ [n]) := by
    simp [Files.visit]
  rw [uploadsIn, flatMap_map, flatMap_append, pushVisit, Files.visit_path, hdirs,
    devicePlace_eq hsound hhere h hway hget]
  refine .bind (.forM fun n hn => ?_) fun _ => .forM fun n hn => ?_
  · obtain ⟨hchild, hfile⟩ := mem_filter.1 hn
    rw [hremote n hchild, ← Path.joinAll_concat, Upload.lines, if_neg (by simpa using hfile)]
    exact (notes_start hbridge _).bind fun _ => notes_note _
  · obtain ⟨hchild, hdir⟩ := mem_filter.1 hn
    rw [hremote n hchild, Upload.lines, if_pos hdir]
    exact (notes_start hbridge _).bind fun _ => notes_pure ()

theorem outcome_push (hsound : s.files.tree.Sound) (hnamed : s.files.tree.Named)
    (hhere : ∀ n ∈ s.files.here, IsName n) (h : s.files.Reaches d l)
    (hbridge : Answers s.programs bridge) :
    outcome (push bridge d) s = (.ok (), { s with
      started := s.started ++ (uploads s.files l).flatMap (Upload.lines bridge d) }) := by
  have hnotes : Notes s.programs
      (((s.files.ways (fun _ => true) l).map (s.files.visit (fun _ => true) d l)).forM
        (pushVisit s.files bridge d)) ((uploads s.files l).flatMap (Upload.lines bridge d)) := by
    rw [uploads, flatMap_assoc, forM_eq_forM, forM_map, ← forM_eq_forM]
    exact .forM fun way hway => notes_pushVisit hsound hnamed hhere h hbridge
      ((Files.mem_ways hsound h.2).1 hway).1
  obtain ⟨_, hrun⟩ := hnotes s rfl
  rw [push, outcome_bind_ok outcome_currentFiles, Files.walk_eq h.1, if_pos h.2, hrun]

theorem started_of_outcome_start {command : List String} {x : String × Int} {s' : Session}
    (h : outcome (start command) s = (.ok x, s')) :
    s'.started = s.started ++ [Text.joinStrings " " command] := by
  obtain ⟨found, s₁, hstart, hfound⟩ := outcome_bind_ok_iff.1 h
  obtain ⟨-, rfl⟩ := outcome_demand_ok_iff.1 hfound
  obtain ⟨_, s₂, hnote, hstart⟩ := outcome_bind_ok_iff.1 hstart
  obtain ⟨_, s₃, hget, hstart⟩ := outcome_bind_ok_iff.1 hstart
  cases hnote
  cases hget
  split at hstart <;> cases hstart <;> rfl

/-- After the profile's place on the device was made, nothing follows but the upload. -/
theorem exists_push_of_deviceRunner {b : Option String} {args : List String} {runner : Runner}
    {s' : Session} (h : outcome (deviceRunner b d args) s = (.ok runner, s')) :
    ∃ bridge s₁, b = some bridge ∧ s₁.started.getLast? =
        some (Text.joinStrings " " [bridge, "shell", "mkdir " ++ deviceProfile]) ∧
      outcome (push bridge d) s₁ = (.ok (), s') := by
  unfold deviceRunner at h
  split at h
  case h_2 => cases h
  rename_i bridge hbridge
  have hb := (Option.filter_eq_some_iff.1 hbridge).1
  obtain ⟨told, _, -, h⟩ := outcome_bind_ok_iff.1 h
  dsimp only at h
  split at h
  · cases h
  iterate 6 obtain ⟨_, _, -, h⟩ := outcome_bind_ok_iff.1 h
  split at h
  case' isTrue => iterate 3 obtain ⟨_, _, -, h⟩ := outcome_bind_ok_iff.1 h
  all_goals
    iterate 2 obtain ⟨_, _, -, h⟩ := outcome_bind_ok_iff.1 h
    obtain ⟨_, s₁, hmake, h⟩ := outcome_bind_ok_iff.1 h
    obtain ⟨_, _, hpush, h⟩ := outcome_bind_ok_iff.1 h
    cases h
    obtain ⟨_, _, hmake, h⟩ := outcome_bind_ok_iff.1 hmake
    cases h
    exact ⟨bridge, s₁, hb, by rw [started_of_outcome_start hmake, getLast?_concat], hpush⟩

/-- **The whole profile comes to the device, in order.**  After the profile's place was made, the
commands that follow put each file and make each directory below the profile, once, and a directory
is made before any command that goes below it. -/
theorem push_uploads (hsound : s.files.tree.Sound) (hnamed : s.files.tree.Named)
    (hhere : ∀ n ∈ s.files.here, IsName n) (h : s.files.Reaches d l)
    (hbridge : Answers s.programs bridge) :
    (∃ us : List Upload,
      outcome (push bridge d) s =
        (.ok (), { s with started := s.started ++ us.flatMap (Upload.lines bridge d) }) ∧
      us.Nodup ∧
      (∀ way, ⟨way, false⟩ ∈ us ↔
        way ≠ [] ∧ (∀ n ∈ way, IsName n) ∧ s.files.isFile (joinAll d way) = true) ∧
      (∀ way, ⟨way, true⟩ ∈ us ↔
        way ≠ [] ∧ (∀ n ∈ way, IsName n) ∧ s.files.isDir (joinAll d way) = true) ∧
      ∀ before u after, us = before ++ u :: after →
        ∀ a b, a ≠ [] → b ≠ [] → u.way = a ++ b → ⟨a, true⟩ ∈ before) ∧
    ∀ b args s₀ runner s', outcome (deviceRunner b d args) s₀ = (.ok runner, s') →
      ∃ bridge s₁, b = some bridge ∧ s₁.started.getLast? =
          some (Text.joinStrings " " [bridge, "shell", "mkdir " ++ deviceProfile]) ∧
        outcome (push bridge d) s₁ = (.ok (), s') := by
  refine ⟨⟨uploads s.files l, outcome_push hsound hnamed hhere h hbridge, nodup_uploads hsound l,
    fun way => ?_, fun way => ?_, fun before u after hus a b ha hb hway => ?_⟩,
    fun _ _ _ _ _ => exists_push_of_deviceRunner⟩
  · simp only [mem_uploads_iff hsound hnamed h, Files.isFile_iff, Bool.false_eq,
      beq_eq_false_iff_ne]
  · simp only [mem_uploads_iff hsound hnamed h, Files.isDir, beq_iff_eq, Bool.true_eq,
      exists_eq_right]
  · exact mem_before_uploads hsound h.2 hus ha hb hway

/-- A profile with a directory inside a directory. -/
def profileSession : Session :=
  { files := { tree := [(["p"], .dir), (["p", "ext"], .dir),
      (["p", "ext", "a"], .dir), (["p", "ext", "a", "js"], .file []),
      (["p", "user.js"], .file [])] }, platform := "linux2" }

/-- A directory inside a directory is made before its file is pushed. -/
theorem push_uploads_profile : ∃ us : List Upload,
    outcome (push "adb" "/p") profileSession =
      (.ok (), { profileSession with started := us.flatMap (Upload.lines "adb" "/p") }) ∧
    us.Nodup ∧ ⟨["user.js"], false⟩ ∈ us ∧
    ∃ before after, us = before ++ ⟨["ext", "a", "js"], false⟩ :: after ∧
      ⟨["ext", "a"], true⟩ ∈ before := by
  have hreaches : profileSession.files.Reaches "/p" ["p"] := ⟨by decide, by decide⟩
  have hbridge : Answers profileSession.programs "adb" := fun _ x hx => by cases hx
  obtain ⟨⟨us, hrun, hnodup, hfiles, -, horder⟩, -⟩ :=
    push_uploads (s := profileSession) (by decide) (by decide) (by decide) hreaches hbridge
  obtain ⟨before, after, hus⟩ := append_of_mem
    ((hfiles ["ext", "a", "js"]).2 ⟨by decide, by decide, by decide⟩)
  exact ⟨us, hrun, hnodup, (hfiles ["user.js"]).2 ⟨by decide, by decide, by decide⟩, before, after,
    hus, horder _ _ _ hus ["ext", "a"] ["js"] (by decide) (by decide) rfl⟩

end Application

end AddonBuilder
