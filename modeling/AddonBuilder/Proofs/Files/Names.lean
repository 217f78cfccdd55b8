import AddonBuilder.Files.Tree
import Mathlib.Data.List.Infix
import Mathlib.Data.List.Sort
import Mathlib.Data.String.Basic

/-!
# The names along a path

A path is cut into names at its slashes, and the names can be glued together again.
-/

namespace AddonBuilder

open List

theorem sortBy_eq {α : Type} (le : α → α → Bool) (l : List α) :
    sortBy le l = l.insertionSort fun a b => le a b := by
  have hinsert : ∀ (a : α) (l : List α), insertBy le a l = l.orderedInsert (fun a b => le a b) a := by
    intro a l
    induction l with
    | nil => rfl
    | cons b l ih => rw [insertBy, orderedInsert_cons, ih]
  unfold sortBy
  induction l with
  | nil => rfl
  | cons a l ih => rw [insertionSort_cons, ← ih, ← hinsert, foldr_cons]

theorem sortedStrings_eq (l : List String) : sortedStrings l = l.insertionSort (· ≤ ·) := by
  rw [sortedStrings, sortBy_eq]
  simp only [decide_eq_true_eq]

namespace Text

theorem pieces_eq_splitOnP {α : Type} (p : α → Bool) (l : List α) : pieces p l = l.splitOnP p := by
  induction l with
  | nil => rfl
  | cons a l ih =>
    rw [pieces, splitOnP_cons_eq_if_modifyHead, ih]
    obtain ⟨piece, more, hl⟩ := exists_cons_of_ne_nil (splitOnP_ne_nil p l)
    rw [hl, modifyHead_cons]

theorem not_mem_of_mem_splitOn {c : Char} {l piece : List Char} (h : piece ∈ l.splitOn c) :
    c ∉ piece := by
  induction l generalizing piece with
  | nil =>
    obtain rfl : piece = [] := by simpa using h
    simp
  | cons a l ih =>
    obtain ⟨first, more, hl⟩ := exists_cons_of_ne_nil (splitOn_ne_nil c l)
    rw [splitOn_cons_eq_if_modifyHead] at h
    split at h
    · rcases mem_cons.1 h with rfl | h
      · simp
      · exact ih h
    · rename_i ha
      rw [hl, modifyHead_cons] at h
      grind

/-- Letters at the end that do not cut belong to the last piece. -/
theorem splitOn_append_of_not_mem {c : Char} {r : List Char} (hr : c ∉ r) (l : List Char) :
    ∃ before last, l.splitOn c = before ++ [last] ∧ (l ++ r).splitOn c = before ++ [last ++ r] := by
  induction l with
  | nil => exact ⟨[], [], by simp, by simpa using splitOn_eq_singleton hr⟩
  | cons a l ih =>
    obtain ⟨before, last, hl, hlr⟩ := ih
    rw [cons_append, splitOn_cons_eq_if_modifyHead, splitOn_cons_eq_if_modifyHead, hl, hlr]
    split
    · exact ⟨[] :: before, last, rfl, rfl⟩
    · cases before with
      | nil => exact ⟨[], a :: last, rfl, rfl⟩
      | cons first before => exact ⟨(a :: first) :: before, last, rfl, rfl⟩

theorem dropStart?_eq_some_iff {α : Type} [DecidableEq α] {start l rest : List α} :
    dropStart? start l = some rest ↔ l = start ++ rest := by
  induction start generalizing l with
  | nil => simp [dropStart?, eq_comm]
  | cons c start ih =>
    cases l with
    | nil => simp [dropStart?]
    | cons d l =>
      by_cases hcd : c = d
      · simp [dropStart?, hcd, ih]
      · have hdc : d ≠ c := fun h => hcd h.symm
        simp [dropStart?, hcd, hdc]

theorem beforeEnd?_eq_some_iff {s ending t : String} :
    beforeEnd? s ending = some t ↔ s = t ++ ending := by
  unfold beforeEnd? dropEnd?
  rw [Option.map_map, Option.map_eq_some_iff]
  constructor
  · rintro ⟨rest, hrest, rfl⟩
    rw [dropStart?_eq_some_iff] at hrest
    rw [← String.toList_inj, String.toList_append, Function.comp_apply, String.toList_ofList,
      ← reverse_inj, hrest]
    simp
  · rintro rfl
    refine ⟨t.toList.reverse, ?_, by simp⟩
    rw [dropStart?_eq_some_iff, String.toList_append, reverse_append]

/-- A string begins with what it continues. -/
theorem beginsWith_iff {s start : String} : beginsWith s start ↔ ∃ t, s = start ++ t := by
  simp only [beginsWith, Option.isSome_iff_exists, dropStart?_eq_some_iff]
  constructor
  · rintro ⟨rest, hrest⟩
    refine ⟨String.ofList rest, ?_⟩
    rw [← String.toList_inj, String.toList_append, String.toList_ofList, hrest]
  · rintro ⟨t, rfl⟩
    exact ⟨t.toList, String.toList_append⟩

theorem endsWith_iff {s ending : String} : endsWith s ending ↔ ∃ t, s = t ++ ending := by
  have h : endsWith s ending = (beforeEnd? s ending).isSome := by
    rw [endsWith, beforeEnd?, Option.isSome_map]
  simp only [h, Option.isSome_iff_exists, beforeEnd?_eq_some_iff]

end Text

namespace Path

theorem names_eq (s : String) : names s = (s.toList.splitOn '/').map String.ofList := by
  rw [names, Text.splitString, Text.pieces_eq_splitOnP, splitOn_eq_splitOnP]

theorem names_ne_nil (s : String) : names s ≠ [] := by
  rw [names_eq]
  simp

theorem names_of_not_mem {s : String} (h : '/' ∉ s.toList) : names s = [s] := by
  rw [names_eq, splitOn_eq_singleton h, map_singleton, String.ofList_toList]

/-- A slash separates the names of two paths. -/
theorem names_append_slash (a b : String) : names (a ++ "/" ++ b) = names a ++ names b := by
  have htext : (a ++ "/" ++ b).toList = a.toList ++ '/' :: b.toList := by simp
  rw [names_eq, htext, splitOn_append_cons_self, map_append, ← names_eq, ← names_eq]

theorem joinStrings_names (s : String) : Text.joinStrings "/" (names s) = s := by
  rw [← String.toList_inj, Text.joinStrings, String.toList_intercalate, names_eq, map_map]
  have hmap : String.toList ∘ String.ofList = id := by
    funext l
    simp
  rw [hmap, map_id]
  exact intercalate_splitOn '/'

/-- Names that are joined with slashes are found again. -/
theorem names_joinStrings {l : List String} (hl : l ≠ []) (h : ∀ n ∈ l, '/' ∉ n.toList) :
    names (Text.joinStrings "/" l) = l := by
  rw [names_eq, Text.joinStrings, String.toList_intercalate]
  have hslash : "/".toList = ['/'] := rfl
  rw [hslash, splitOn_intercalate, map_map]
  · have hmap : String.ofList ∘ String.toList = id := by
      funext n
      simp
    rw [hmap, map_id]
  · intro n hn
    obtain ⟨n', hn', rfl⟩ := mem_map.1 hn
    exact h n' hn'
  · simpa using hl

theorem names_append {t : String} (ht : '/' ∉ t.toList) (s : String) :
    ∃ before last, names s = before ++ [last] ∧ names (s ++ t) = before ++ [last ++ t] := by
  obtain ⟨before, last, hs, hst⟩ := Text.splitOn_append_of_not_mem ht s.toList
  refine ⟨before.map String.ofList, String.ofList last, ?_, ?_⟩
  · simp [names_eq, hs]
  · rw [names_eq, String.toList_append, hst, map_append, map_singleton,
      String.ofList_append, String.ofList_toList]

theorem not_mem_of_mem_names {s n : String} (hn : n ∈ names s) : '/' ∉ n.toList := by
  rw [names_eq] at hn
  obtain ⟨piece, hpiece, rfl⟩ := mem_map.1 hn
  rw [String.toList_ofList]
  exact Text.not_mem_of_mem_splitOn hpiece

theorem names_suffix_join (a b : String) : names b <:+ names (join a b) := by
  unfold join
  split
  · exact suffix_rfl
  · split
    · rename_i hend
      rw [Bool.or_eq_true, String.isEmpty_iff, Text.endsWith_iff] at hend
      rcases hend with rfl | ⟨a, rfl⟩
      · simp
      · rw [names_append_slash]
        exact suffix_append _ _
    · rw [names_append_slash]
      exact suffix_append _ _

/-- A name that leads one level down. -/
def Plain (n : String) : Prop := n ≠ "" ∧ n ≠ "." ∧ n ≠ ".."

instance (n : String) : Decidable (Plain n) := inferInstanceAs (Decidable (_ ∧ _ ∧ _))

/-- Plain names stay when a path is brought to its normal form. -/
theorem foldl_pushName_plain {rooted : Bool} {names : List String} (h : ∀ n ∈ names, Plain n)
    (done : List String) : names.foldl (pushName rooted) done = names.reverse ++ done := by
  induction names generalizing done with
  | nil => rfl
  | cons n rest ih =>
    obtain ⟨⟨hempty, hdot, hdots⟩, hrest⟩ := forall_mem_cons.1 h
    have hpush : pushName rooted done n = n :: done := by simp [pushName, hempty, hdot, hdots]
    rw [foldl_cons, hpush, ih hrest]
    simp

end Path

namespace FileTree

open AddonBuilder.Path (Plain)

theorem walk?_append {t : FileTree} {l l' : Location} {a b : List String}
    (h : walk? t l (a ++ b) = some l') : ∃ m, walk? t m b = some l' := by
  induction a generalizing l with
  | nil => exact ⟨l, h⟩
  | cons name a ih =>
    rw [cons_append, walk?] at h
    split at h
    · cases h
    · split at h
      · exact ih h
      · split at h
        · exact ih h
        · exact ih h

theorem walk?_cons {t : FileTree} {l : Location} {name : String} (hl : t.isDir l)
    (hname : Plain name) (names : List String) :
    walk? t l (name :: names) = walk? t (l ++ [name]) names := by
  obtain ⟨hempty, hdot, hdots⟩ := hname
  simp [walk?, hl, hempty, hdot, hdots]

/-- Plain names lead straight down. -/
theorem walk?_plain {t : FileTree} {l l' : Location} {names : List String}
    (hplain : ∀ n ∈ names, Plain n) (h : walk? t l names = some l') : l' = l ++ names := by
  induction names generalizing l with
  | nil => simpa [walk?] using h.symm
  | cons name names ih =>
    by_cases hl : t.isDir l
    · rw [walk?_cons hl (hplain name mem_cons_self)] at h
      rw [ih (fun n hn => hplain n (mem_cons_of_mem _ hn)) h, append_assoc]
      rfl
    · simp [walk?, hl] at h

theorem walk?_replicate {t : FileTree} {l : Location} (hl : t.isDir l) (k : Nat)
    (names : List String) : walk? t l (replicate k "" ++ names) = walk? t l names := by
  induction k with
  | zero => rfl
  | succ k ih =>
    rw [replicate_succ, cons_append, walk?, ih]
    simp [hl]

end FileTree

theorem Files.node?_absolute (f : Files) (path : String) :
    f.node? ("/" ++ path) = (f.tree.walk? [] (Path.names path)).bind f.tree.get? := by
  have hnames : Path.names ("/" ++ path) = "" :: Path.names path := by
    simpa [Path.names_eq] using Path.names_append_slash "" path
  have habsolute : Path.isAbsolute ("/" ++ path) := Text.beginsWith_iff.2 ⟨path, rfl⟩
  have hempty : ("/" ++ path).isEmpty = false := by
    rw [← Bool.not_eq_true, String.isEmpty_iff, ← String.toList_inj]
    simp
  rw [Files.node?, FileTree.locate?, hempty, habsolute, hnames, FileTree.walk?]
  simp [FileTree.isDir, FileTree.get?]

theorem Files.exists_suffix_of_contains {f : Files} {path : String}
    (hpath : f.contains path) {names : List String} (hne : names ≠ [])
    (hplain : ∀ n ∈ names, Path.Plain n) (hnames : names <:+ Path.names path) :
    ∃ l ∈ Assoc.keys f.tree, names <:+ l := by
  obtain ⟨node, hnode⟩ := Option.isSome_iff_exists.1 hpath
  obtain ⟨l, hl, hget⟩ := Option.bind_eq_some_iff.1 hnode
  unfold FileTree.locate? at hl
  split at hl
  · cases hl
  · obtain ⟨before, hbefore⟩ := hnames
    rw [← hbefore] at hl
    obtain ⟨m, hm⟩ := FileTree.walk?_append hl
    have hlm := FileTree.walk?_plain hplain hm
    refine ⟨l, ?_, m, hlm.symm⟩
    rw [FileTree.get?, if_neg (by simp [hlm, hne])] at hget
    exact Assoc.contains_iff.1 (Assoc.contains_of_get? hget)

theorem Files.mem_of_read? {f : Files} {path : String} {content : Bytes}
    (h : f.read? path = some content) : ∃ l, (l, Node.file content) ∈ f.tree := by
  unfold Files.read? at h
  split at h
  · rename_i hnode
    cases h
    obtain ⟨l, -, hget⟩ := Option.bind_eq_some_iff.1 hnode
    unfold FileTree.get? at hget
    split at hget
    · cases hget
    · exact ⟨l, Assoc.mem_of_get? hget⟩
  · cases h

end AddonBuilder
