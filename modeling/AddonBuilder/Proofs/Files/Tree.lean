import AddonBuilder.Proofs.Files.Names

/-!
# Changing a file tree

A tree is **sound** if every location is listed once and stands in a directory.
-/

namespace AddonBuilder

open AddonBuilder.Path (Plain)

namespace Path

theorem isAbsolute_iff {p : String} : isAbsolute p ↔ p.toList.head? = some '/' := by
  have hslash : "/".toList = ['/'] := rfl
  unfold isAbsolute Text.beginsWith
  rw [hslash]
  cases p.toList with
  | nil => simp [Text.dropStart?]
  | cons c rest =>
    by_cases hc : '/' = c
    · simp [Text.dropStart?, ← hc]
    · have hne : c ≠ '/' := fun heq => hc heq.symm
      simp [Text.dropStart?, hc, hne]

theorem isAbsolute_append {p : String} (hp : p.isEmpty = false) (more : String) :
    isAbsolute (p ++ more) = isAbsolute p := by
  have hne : p.toList ≠ [] := by
    intro hnil
    rw [← Bool.not_eq_true, String.isEmpty_iff, ← String.toList_inj] at hp
    exact hp hnil
  rw [Bool.eq_iff_iff, isAbsolute_iff, isAbsolute_iff, String.toList_append,
    List.head?_append_of_ne_nil _ hne]

end Path

namespace FileTree

/-- A tree as it comes about by making directories and files in directories. -/
structure Sound (t : FileTree) : Prop where
  nodup : (Assoc.keys t).Nodup
  parents : ∀ l ∈ Assoc.keys t, t.isDir l.dropLast = true

instance (t : FileTree) : Decidable t.Sound :=
  decidable_of_iff ((Assoc.keys t).Nodup ∧ ∀ l ∈ Assoc.keys t, t.isDir l.dropLast = true)
    ⟨fun h => ⟨h.1, h.2⟩, fun h => ⟨h.nodup, h.parents⟩⟩

variable {t t' : FileTree} {l m : Location}

theorem isDir_iff : t.isDir l ↔ t.get? l = some .dir := by
  simp [isDir]

/-- Putting a node changes one place. -/
theorem get?_put (hl : l ≠ []) (node : Node) (m : Location) :
    (t.put l node).get? m = if l = m then some node else t.get? m := by
  unfold get? put
  by_cases hm : m = []
  · simp [hm, hl]
  · simp [hm, Assoc.get?_insert]

theorem get?_erase (ht : t.Sound) (hl : l ≠ []) (m : Location) :
    get? (Assoc.erase t l) m = if l = m then none else t.get? m := by
  unfold get?
  by_cases hm : m = []
  · simp [hm, hl]
  · simp [hm, Assoc.get?_erase ht.nodup]

theorem Sound.isDir_dropLast (ht : t.Sound) (h : (t.get? l).isSome) : t.isDir l.dropLast := by
  unfold get? at h
  split at h
  · rename_i hl
    rw [List.isEmpty_iff.1 hl]
    rfl
  · exact ht.parents l (Assoc.contains_iff.1 h)

/-- Two trees with the same directories. -/
def SameDirs (t t' : FileTree) : Prop := ∀ l, t'.isDir l = t.isDir l

theorem SameDirs.trans {t'' : FileTree} (h : SameDirs t t')
    (h' : SameDirs t' t'') : SameDirs t t'' := fun l => (h' l).trans (h l)

theorem sameDirs_put (hl : l ≠ []) (hfile : t.isDir l = false) (content : Bytes) :
    SameDirs t (t.put l (.file content)) := by
  intro m
  unfold isDir at *
  rw [get?_put hl]
  split
  · rename_i hlm
    rw [← hlm, hfile]
    rfl
  · rfl

theorem sameDirs_erase (ht : t.Sound) (hl : l ≠ []) (hfile : t.isDir l = false) :
    SameDirs t (Assoc.erase t l) := by
  intro m
  unfold isDir at *
  rw [get?_erase ht hl]
  split
  · rename_i hlm
    rw [← hlm, hfile]
    rfl
  · rfl

theorem walk?_congr (h : SameDirs t t') (l : Location) (names : List String) :
    t'.walk? l names = t.walk? l names := by
  induction names generalizing l with
  | nil => rfl
  | cons name names ih => rw [walk?, walk?, h l, ih, ih, ih]

/-- **A path leads to the same place in trees with the same directories.** -/
theorem locate?_congr (h : SameDirs t t') (here : Location) (path : String) :
    t'.locate? here path = t.locate? here path := by
  unfold locate?
  rw [walk?_congr h]

theorem walk?_append_eq (l : Location) (names more : List String) :
    t.walk? l (names ++ more) = (t.walk? l names).bind fun m => t.walk? m more := by
  induction names generalizing l with
  | nil => rfl
  | cons first names ih =>
    rw [List.cons_append, walk?, walk?]
    grind

end FileTree

namespace Files

/-- A path of a file: a directory, in which the last name of the path is looked up. -/
structure FilePath (f : Files) (path : String) (d : Location) (last : String) : Prop where
  names : ∃ before, Path.names path = before ++ [last] ∧
    f.tree.walk? (if Path.isAbsolute path then [] else f.here) before = some d
  dir : f.tree.isDir d = true
  plain : Plain last

variable {f : Files} {path last : String} {d l : Location}

/-- In a sound tree a path that leads to a file has a plain name at its end, as any other name leads
to a directory. -/
theorem exists_filePath (ht : f.tree.Sound) (hl : f.tree.locate? f.here path = some l)
    (hget : (f.tree.get? l).isSome) (hfile : f.tree.isDir l = false) :
    ∃ d last, l = d ++ [last] ∧ f.FilePath path d last := by
  unfold FileTree.locate? at hl
  split at hl
  · cases hl
  obtain ⟨before, last, hnames, -⟩ := Path.names_append (t := "") (by simp) path
  rw [hnames, FileTree.walk?_append_eq] at hl
  obtain ⟨d, hd, hlast⟩ := Option.bind_eq_some_iff.1 hl
  unfold FileTree.walk? at hlast
  split at hlast
  · cases hlast
  rename_i hdir
  have hdir : f.tree.isDir d := by simpa using hdir
  split at hlast
  · obtain rfl : d = l := by simpa [FileTree.walk?] using hlast
    rw [hdir] at hfile
    cases hfile
  rename_i hname
  split at hlast
  · obtain rfl : d.dropLast = l := by simpa [FileTree.walk?] using hlast
    have hparent := ht.isDir_dropLast (l := d) (by
      rw [FileTree.isDir_iff.1 hdir]
      rfl)
    rw [hparent] at hfile
    cases hfile
  · rename_i hdots
    obtain rfl : d ++ [last] = l := by simpa [FileTree.walk?] using hlast
    have hname : last ≠ "" ∧ last ≠ "." := by simpa using hname
    exact ⟨d, last, rfl, ⟨before, hnames, hd⟩, hdir, hname.1, hname.2, hdots⟩

theorem exists_filePath_of_plain {before : List String} (hnames : Path.names path = before ++ [last])
    (hplain : Plain last) (hl : f.tree.locate? f.here path = some l) :
    ∃ d, l = d ++ [last] ∧ f.FilePath path d last := by
  unfold FileTree.locate? at hl
  split at hl
  · cases hl
  rw [hnames, FileTree.walk?_append_eq] at hl
  obtain ⟨d, hd, hlast⟩ := Option.bind_eq_some_iff.1 hl
  have hdir : f.tree.isDir d := by
    by_contra hnone
    rw [FileTree.walk?, if_pos (by simpa using hnone)] at hlast
    cases hlast
  rw [FileTree.walk?_cons hdir hplain] at hlast
  exact ⟨d, (Option.some.inj hlast).symm, ⟨before, hnames, hd⟩, hdir, hplain⟩

namespace FilePath

variable (h : f.FilePath path d last)

include h

theorem path_ne_empty : path.isEmpty = false := by
  obtain ⟨before, hnames, -⟩ := h.names
  rw [← Bool.not_eq_true, String.isEmpty_iff]
  rintro rfl
  have hsplit : [] ++ [""] = before ++ [last] := hnames
  have hlast : [""] = [last] := (List.append_inj' hsplit rfl).2
  exact h.plain.1 (by simpa using hlast.symm)

theorem locate?_eq : f.tree.locate? f.here path = some (d ++ [last]) := by
  obtain ⟨before, hnames, hbefore⟩ := h.names
  unfold FileTree.locate?
  rw [h.path_ne_empty, hnames, FileTree.walk?_append_eq, hbefore]
  exact FileTree.walk?_cons h.dir h.plain []

theorem append (more : String) (hmore : '/' ∉ more.toList) (hplain : Plain (last ++ more)) :
    f.FilePath (path ++ more) d (last ++ more) := by
  obtain ⟨before, hnames, hbefore⟩ := h.names
  obtain ⟨before', last', hnames', happend⟩ := Path.names_append hmore path
  obtain ⟨rfl, hlast⟩ : before' = before ∧ [last'] = [last] :=
    List.append_inj' (hnames'.symm.trans hnames) rfl
  obtain rfl : last' = last := by simpa using hlast
  have habsolute := Path.isAbsolute_append h.path_ne_empty more
  exact ⟨⟨before', happend, habsolute ▸ hbefore⟩, h.dir, hplain⟩

theorem endsWith_slash : Text.endsWith path "/" = false := by
  rw [← Bool.not_eq_true, Text.endsWith_iff]
  rintro ⟨t, rfl⟩
  obtain ⟨before, hnames, -⟩ := h.names
  have heq : Path.names t ++ [""] = before ++ [last] := by
    rw [← hnames, ← String.append_empty (s := t ++ "/"), Path.names_append_slash]
    rfl
  have hlast : [""] = [last] := (List.append_inj' heq rfl).2
  exact h.plain.1 (by simpa using hlast.symm)

theorem withTree {t : FileTree} (ht : FileTree.SameDirs f.tree t) :
    ({ f with tree := t } : Files).FilePath path d last := by
  obtain ⟨before, hnames, hbefore⟩ := h.names
  refine ⟨⟨before, hnames, ?_⟩, (ht d).trans h.dir, h.plain⟩
  rw [FileTree.walk?_congr ht, hbefore]

theorem write?_eq (hfile : f.tree.isDir (d ++ [last]) = false) (node : Node) :
    f.write? path node = some { f with tree := f.tree.put (d ++ [last]) node } := by
  unfold Files.write?
  rw [h.locate?_eq]
  simp [h.dir, hfile, h.endsWith_slash]

theorem removeFile?_eq {content : Bytes} (hget : f.tree.get? (d ++ [last]) = some (.file content)) :
    f.removeFile? path = some { f with tree := Assoc.erase f.tree (d ++ [last]) } := by
  unfold Files.removeFile?
  rw [h.locate?_eq]
  simp [hget]

theorem node?_eq : f.node? path = f.tree.get? (d ++ [last]) := by
  rw [Files.node?, h.locate?_eq, Option.bind_some]

end FilePath

end Files

end AddonBuilder
