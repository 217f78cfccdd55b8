import AddonBuilder.Application.Profile
import AddonBuilder.Proofs.Files.Growth
import AddonBuilder.Proofs.Session.Outcome

/-!
# Unpacking an archive

An archive is unpacked entry by entry.
-/

namespace AddonBuilder

open AddonBuilder.Path (IsName Bare below)

namespace Path

theorem Bare.dropWhile_slash {q : String} (hq : Bare q) :
    q.toList.reverse.dropWhile (· = '/') = q.toList.reverse := by
  have hlast := hq.getLast?_ne
  rw [← List.head?_reverse] at hlast
  cases hletters : q.toList.reverse with
  | nil => rfl
  | cons c rest =>
    rw [hletters] at hlast
    rw [List.dropWhile_cons, if_neg (by simpa using hlast)]

theorem split_slash {q n : String} (hq : Bare q) (hn : '/' ∉ n.toList) :
    split (q ++ "/" ++ n) = (q, n) := by
  have hletters : (q ++ "/" ++ n).toList.reverse = n.toList.reverse ++ '/' :: q.toList.reverse := by
    simp
  have hname : ∀ c ∈ n.toList.reverse, decide (c ≠ '/') := by
    intro c hc
    refine decide_eq_true ?_
    rintro rfl
    exact hn (List.mem_reverse.1 hc)
  have hne : q.toList ≠ [] := by
    intro hnil
    have hempty := hq.1
    rw [String.toList_eq_nil_iff.1 hnil] at hempty
    cases hempty
  unfold split
  rw [hletters]
  dsimp only
  rw [List.takeWhile_append_of_pos hname, List.dropWhile_append_of_pos hname,
    List.takeWhile_cons_of_neg (by simp), List.dropWhile_cons_of_neg (by simp), List.reverse_reverse,
    List.dropWhile_cons_of_pos (by simp), hq.dropWhile_slash, List.reverse_reverse, List.append_nil,
    List.reverse_reverse, if_neg (by simpa using hne), String.ofList_toList, String.ofList_toList]

/-- Plain names one after another are a relative path. -/
theorem IsName.relative {n : String} {way : List String} (hn : IsName n)
    (hway : ∀ m ∈ way, IsName m) : Bare (below n way) ∧ Path.isAbsolute (below n way) = false := by
  have hbare := hn.bare_append ""
  rw [String.empty_append] at hbare
  exact ⟨hbare.below hway, by rw [isAbsolute_below hbare.1, hn.isAbsolute]⟩

theorem Bare.join_relative {q n : String} {way : List String} (hq : Bare q) (hn : IsName n)
    (hway : ∀ m ∈ way, IsName m) : Path.join q (Path.below n way) = Path.below q (n :: way) := by
  rw [Path.join, (hn.relative hway).2, hq.1, hq.2, below_eq q (List.cons_ne_nil n way)]
  rfl

theorem Bare.join_relative_slash {q n : String} {way : List String} (hq : Bare q) (hn : IsName n)
    (hway : ∀ m ∈ way, IsName m) :
    Path.join q (Path.below n way ++ "/") = Path.below q (n :: way) ++ "/" := by
  obtain ⟨hbare, hrel⟩ := hn.relative hway
  rw [← hq.join_relative hn hway, Path.join, isAbsolute_append hbare.1, hrel, Path.join, hrel,
    hq.1, hq.2]
  simp [String.append_assoc]

theorem IsName.append_xpi {n : String} (hn : IsName n) : IsName (n ++ ".xpi") := by
  have hlen : ∀ m : String, m.length < 4 → n ++ ".xpi" ≠ m := by
    rintro m hm rfl
    rw [String.length_append] at hm
    have hfour : ".xpi".length = 4 := rfl
    omega
  refine ⟨⟨hlen _ (by decide), hlen _ (by decide), hlen _ (by decide)⟩, ?_⟩
  have hslash := hn.2
  simpa using hslash

end Path

namespace Application

open Session List Archive
open Files (Grows)

variable {f : Files} {dir id n q : String} {l : Location} {way : List String} {s s' : Session}

theorem makeDir?_bare (hq : Bare q) (f : Files) :
    f.makeDir? q = (f.tree.locate? f.here q).bind fun l =>
      if (f.tree.get? l).isSome || !f.tree.isDir l.dropLast then none
      else some { f with tree := f.tree.put l .dir } := by
  unfold Files.makeDir?
  rw [hq.dropWhile_slash, reverse_reverse, String.ofList_toList]
  rfl

theorem makePath_succ (hq : Bare q) (hn : IsName n) (k : Nat) (f : Files) :
    makePath (k + 1) (q ++ "/" ++ n) f =
      let f' := if f.contains q then f else makePath k q f
      (f'.makeDir? (q ++ "/" ++ n)).getD f' := by
  have hempty : q ≠ "" := by
    rintro rfl
    cases hq.1
  rw [makePath, Path.split_slash hq hn.2]
  cases hcontains : f.contains q <;> simp [hcontains, hempty, hn.1.1, hn.1.2.1]

theorem makePath_slash (hq : Bare q) (hn : IsName n) (k : Nat) (f : Files) :
    makePath k (q ++ "/" ++ n ++ "/") f = makePath k (q ++ "/" ++ n) f := by
  have hpath : Bare (q ++ "/" ++ n) := hn.bare_append _
  have hmake : ∀ f : Files, f.makeDir? (q ++ "/" ++ n ++ "/") = f.makeDir? (q ++ "/" ++ n) := by
    intro f
    have htext : (q ++ "/" ++ n ++ "/").toList.reverse = '/' :: (q ++ "/" ++ n).toList.reverse := by
      simp
    unfold Files.makeDir?
    rw [htext, dropWhile_cons_of_pos (by simp)]
  cases k with
  | zero => rfl
  | succ k =>
    have hsplit : Path.split (q ++ "/" ++ n ++ "/") = (q ++ "/" ++ n, "") := by
      simpa using Path.split_slash (n := "") hpath (by simp)
    rw [makePath, makePath, hsplit, Path.split_slash hq hn.2]
    simp [hmake, hn.1.1, Path.split_slash hq hn.2]

section Below

variable (hreaches : f.Reaches dir l) (hdir : Bare dir) (hway : ∀ n ∈ id :: way, IsName n)

include hreaches hdir hway

theorem makeDir?_grows : Grows (l ++ [id]) f ((f.makeDir? (below dir (id :: way))).getD f) := by
  rw [makeDir?_bare (hdir.below hway)]
  cases hm : f.tree.locate? f.here (below dir (id :: way)) with
  | none => exact .refl _ _
  | some m =>
    obtain rfl := hreaches.locate?_below hdir hway hm
    rw [Option.bind_some]
    split
    · exact .refl _ _
    · rename_i hfree
      refine Grows.put ⟨way, by simp⟩ (by simp) ?_ _
      simp only [Bool.or_eq_true, not_or, Bool.not_eq_true, Option.isSome_eq_false_iff,
        Option.isNone_iff_eq_none] at hfree
      rw [FileTree.isDir, hfree.1]
      rfl

theorem makePath_grows (k : Nat) : Grows (l ++ [id]) f (makePath k (below dir (id :: way)) f) := by
  induction k generalizing way with
  | zero => exact .refl _ _
  | succ k ih =>
    rcases eq_nil_or_concat way with rfl | ⟨above, last, rfl⟩
    · have hmake := makeDir?_grows hreaches hdir hway
      rw [Path.below_cons, Path.below_nil] at hmake ⊢
      rw [makePath_succ hdir (hway id mem_cons_self), hreaches.contains]
      exact hmake
    · rw [concat_eq_append] at hway ⊢
      have habove : ∀ n ∈ id :: above, IsName n := fun n hn =>
        hway n (by simp only [mem_cons, mem_append] at hn ⊢; tauto)
      have hlast : IsName last := hway last (by simp)
      have hbelow : below dir (id :: (above ++ [last])) =
          below dir (id :: above) ++ "/" ++ last := by
        rw [← cons_append, Path.below_append]
        rfl
      have hfirst : Grows (l ++ [id]) f (if f.contains (below dir (id :: above)) then f
          else makePath k (below dir (id :: above)) f) := by
        split
        · exact .refl _ _
        · exact ih habove
      have hmake := makeDir?_grows (hreaches.grows hfirst) hdir hway
      rw [hbelow] at hmake ⊢
      rw [makePath_succ (hdir.below habove) hlast]
      exact hfirst.trans hmake

end Below

/-! ## Entries -/

/-- The name of an entry that stays where it is unpacked: plain names, and a slash after those of a
directory. -/
def IsEntryName (name : String) : Prop :=
  ∃ first more, IsName first ∧ (∀ n ∈ more, IsName n) ∧
    (name = below first more ∨ name = below first more ++ "/")

def unpackEntry (archive : Archive) (dir : String) (e : Entry) : Command Unit := do
  let path := Path.join dir e.name
  if e.isDir then ensurePath path
  else
    if !(← currentFiles).isDir (Path.parent path) then ensurePath (Path.parent path)
    writeBytes path ((archive.content? e.name).getD [])

theorem unpack_eq (archive : Archive) (dir : String) :
    Profile.unpack archive dir = archive.forM (unpackEntry archive dir) := rfl

/-- A change of the files alone, at and below a place. -/
structure GrowsAt (place : Location) (s s' : Session) : Prop where
  session : s' = { s with files := s'.files }
  files : Grows place s.files s'.files

theorem GrowsAt.refl (place : Location) (s : Session) : GrowsAt place s s := ⟨rfl, .refl _ _⟩

theorem GrowsAt.trans {place : Location} {s'' : Session} (h : GrowsAt place s s')
    (h' : GrowsAt place s' s'') : GrowsAt place s s'' :=
  ⟨by rw [h'.session, h.session], h.files.trans h'.files⟩

section Entries

variable {archive : Archive} {e : Entry} (hreaches : s.files.Reaches dir l)
  (hdir : Bare dir) (hid : IsName id)

include hreaches hdir

theorem ensurePath_grows (hway : ∀ n ∈ id :: way, IsName n) {path : String}
    (hpath : ∀ k, makePath k path s.files = makePath k (below dir (id :: way)) s.files)
    (h : outcome (ensurePath path) s = (.ok (), s')) : GrowsAt (l ++ [id]) s s' := by
  have hgrows := makePath_grows hreaches hdir hway (path.length + 1)
  rw [ensurePath, outcome_modify, hpath] at h
  generalize makePath _ _ s.files = files at h hgrows
  obtain ⟨-, rfl⟩ := Prod.mk.inj h
  exact ⟨rfl, hgrows⟩

theorem writeBytes_grows (hway : ∀ n ∈ id :: way, IsName n) (hne : way ≠ []) {content : Bytes}
    (h : outcome (writeBytes (below dir (id :: way)) content) s = (.ok (), s')) :
    GrowsAt (l ++ [id]) s s' ∧ s'.files.tree.isDir (l ++ [id]) := by
  obtain ⟨files, hwrite, rfl⟩ := outcome_change_ok_iff.1 h
  obtain ⟨m, hm, -, -, hfile, rfl⟩ := Files.exists_of_write? hwrite
  have hgrows : GrowsAt (l ++ [id]) s
      { s with files := { s.files with tree := s.files.tree.put m (.file content) } } := by
    refine ⟨rfl, Grows.put ⟨way, ?_⟩ (by simp) hfile _⟩
    rw [hreaches.locate?_below hdir hway hm]
    simp
  refine ⟨hgrows, hgrows.files.dirs _ ?_⟩
  -- The walk to the file goes through the place itself.
  obtain ⟨n, rest, rfl⟩ := exists_cons_of_ne_nil hne
  rw [FileTree.locate?_below hdir hway, hreaches.1, Option.bind_some,
    FileTree.walk?_cons hreaches.2 (hway id mem_cons_self).1, FileTree.walk?] at hm
  by_contra hnone
  rw [if_pos (by simpa using hnone)] at hm
  cases hm

include hid

theorem unpackEntry_grows (hname : IsEntryName e.name)
    (h : outcome (unpackEntry archive (Path.join dir id) e) s = (.ok (), s')) :
    GrowsAt (l ++ [id]) s s' ∧ (e.isDir = false → s'.files.tree.isDir (l ++ [id])) := by
  obtain ⟨first, more, hfirst, hmore, hname⟩ := hname
  have hway : ∀ n ∈ id :: first :: more, IsName n := by
    simpa using ⟨hid, hfirst, hmore⟩
  obtain ⟨above, last, hlast⟩ := (eq_nil_or_concat (first :: more)).resolve_left (by simp)
  rw [concat_eq_append] at hlast
  have habove : ∀ n ∈ id :: above, IsName n := fun n hn =>
    hway n (by rw [hlast, ← cons_append]; exact mem_append_left _ hn)
  have hlastName : IsName last := hway last (by simp [hlast])
  have hpath : below dir (id :: first :: more) = below dir (id :: above) ++ "/" ++ last := by
    rw [hlast, ← cons_append, Path.below_append]
    rfl
  have hbefore : Bare (below dir (id :: above)) := hdir.below habove
  have hplace : Bare (dir ++ "/" ++ id) := hid.bare_append _
  rw [hdir.join hid] at h
  rcases hname with hname | hname
  · have hentry : e.isDir = false := by
      rw [Entry.isDir, hname]
      simpa using (hfirst.relative hmore).1.getLast?_ne
    have hjoin : Path.join (dir ++ "/" ++ id) (below first more) =
        below dir (id :: first :: more) := by
      rw [hplace.join_relative hfirst hmore, Path.below_cons dir]
    have hparent : Path.parent (below dir (id :: first :: more)) = below dir (id :: above) := by
      rw [Path.parent, hpath, Path.split_slash hbefore hlastName.2]
    simp only [unpackEntry, hname, hjoin, hentry, hparent, Bool.false_eq_true, if_false] at h
    rw [outcome_bind_ok outcome_currentFiles] at h
    split at h
    · obtain ⟨⟨⟩, s₁, hensure, hwrite⟩ := outcome_bind_ok_iff.1 h
      have hfirst := ensurePath_grows hreaches hdir habove (fun _ => rfl) hensure
      obtain ⟨hsecond, hdir⟩ := writeBytes_grows (hreaches.grows hfirst.files) hdir hway
        (by simp) hwrite
      exact ⟨hfirst.trans hsecond, fun _ => hdir⟩
    · obtain ⟨hgrows, hdir⟩ := writeBytes_grows hreaches hdir hway (by simp) h
      exact ⟨hgrows, fun _ => hdir⟩
  · have hentry : e.isDir := by
      rw [Entry.isDir, hname]
      simp
    have hslash : Path.join (dir ++ "/" ++ id) e.name = below dir (id :: first :: more) ++ "/" := by
      rw [hname, hplace.join_relative_slash hfirst hmore, Path.below_cons dir]
    rw [unpackEntry, hslash, hentry, if_pos rfl] at h
    refine ⟨ensurePath_grows hreaches hdir hway (fun k => ?_) h, fun hfile => ?_⟩
    swap
    · rw [hentry] at hfile
      cases hfile
    rw [hpath, makePath_slash hbefore hlastName]

/-- **Unpacking changes nothing outside of its place**, which is a directory if there is a file to
unpack. -/
theorem unpack_grows (hnames : ∀ e ∈ archive, IsEntryName e.name)
    (h : outcome (Profile.unpack archive (Path.join dir id)) s = (.ok (), s')) :
    GrowsAt (l ++ [id]) s s' ∧
      ((∃ e ∈ archive, e.isDir = false) → s'.files.tree.isDir (l ++ [id])) := by
  -- The entries are unpacked one after another, with the whole archive at hand.
  have hrun : ∀ (entries : List Entry) (s : Session), s.files.Reaches dir l →
      (∀ e ∈ entries, IsEntryName e.name) →
      outcome (entries.forM (unpackEntry archive (Path.join dir id))) s = (.ok (), s') →
      GrowsAt (l ++ [id]) s s' ∧
        ((∃ e ∈ entries, e.isDir = false) → s'.files.tree.isDir (l ++ [id])) := by
    intro entries
    induction entries with
    | nil =>
      intro s _ _ h
      obtain ⟨-, rfl⟩ := Prod.mk.inj h
      exact ⟨.refl _ _, by simp⟩
    | cons e entries ih =>
      intro s hreaches hnames h
      obtain ⟨s₁, hentry, hrest⟩ := outcome_forM_cons_ok_iff.1 h
      obtain ⟨hfirst, hfile⟩ := unpackEntry_grows hreaches hdir hid (hnames e mem_cons_self) hentry
      obtain ⟨hmore, hfiles⟩ := ih s₁ (hreaches.grows hfirst.files)
        (fun e' he' => hnames e' (mem_cons_of_mem _ he')) hrest
      refine ⟨hfirst.trans hmore, ?_⟩
      rintro ⟨e', he', hfile'⟩
      rcases mem_cons.1 he' with rfl | he'
      · exact hmore.files.dirs _ (hfile hfile')
      · exact hfiles ⟨e', he', hfile'⟩
  exact hrun archive s hreaches hnames (unpack_eq archive _ ▸ h)

end Entries

end Application

end AddonBuilder
