import AddonBuilder.Proofs.Files.Names
import AddonBuilder.Text.Blank
import Mathlib.Data.List.DropRight

/-!
# Trimmed texts

Trimming stops at an element outside the class: what stands before such an element is trimmed at its
start only, and what stands after it at its end only (`trim_append_cons`).
-/

namespace AddonBuilder.Text

open List

section Lists

variable {α : Type} {p : α → Bool} {l more rest : List α} {c : α}

theorem dropWhile_cons_of_not (hc : p c = false) (l : List α) : (c :: l).dropWhile p = c :: l :=
  dropWhile_cons_of_neg (by simp [hc])

theorem dropWhile_append_cons (hc : p c = false) (l more : List α) :
    (l ++ c :: more).dropWhile p = l.dropWhile p ++ c :: more := by
  rw [dropWhile_append]
  split
  · rename_i hl
    rw [isEmpty_iff.1 hl, nil_append, dropWhile_cons_of_not hc]
  · rfl

theorem trimEnd_append_cons (hc : p c = false) (l more : List α) :
    trimEnd p (l ++ c :: more) = l ++ c :: trimEnd p more := by
  have hreverse : (l ++ c :: more).reverse = more.reverse ++ c :: l.reverse := by simp
  rw [trimEnd, hreverse, dropWhile_append_cons hc]
  simp [trimEnd]

/-- What is kept stops the trimming from both sides. -/
theorem trim_append_cons (hc : p c = false) (l more : List α) :
    trim p (l ++ c :: more) = l.dropWhile p ++ c :: trimEnd p more := by
  rw [trim, trimStart, dropWhile_append_cons hc, trimEnd_append_cons hc]

theorem trimEnd_append_of_all (h : ∀ x ∈ more, p x) (l : List α) :
    trimEnd p (l ++ more) = trimEnd p l := by
  have hnone : more.reverse.dropWhile p = [] := by
    rw [dropWhile_eq_nil_iff]
    intro x hx
    exact h x (mem_reverse.1 hx)
  rw [trimEnd, reverse_append, dropWhile_append, hnone]
  rfl

theorem trimEnd_of_all (h : ∀ x ∈ more, p x) : trimEnd p more = [] := by
  have htrim := trimEnd_append_of_all h []
  rwa [nil_append] at htrim

theorem all_or_exists (p : α → Bool) (l : List α) :
    (∀ x ∈ l, p x) ∨
      ∃ before c after, l = before ++ c :: after ∧ p c = false ∧ ∀ x ∈ before, p x := by
  cases hfind : l.find? (!p ·) with
  | none => exact .inl (by simpa using hfind)
  | some c =>
    obtain ⟨hc, before, after, hsplit, hbefore⟩ := find?_eq_some_iff_append.1 hfind
    exact .inr ⟨before, c, after, hsplit, by simpa using hc, by simpa using hbefore⟩

theorem trim_of_all (h : ∀ x ∈ l, p x) : trim p l = [] := by
  rw [trim, trimStart, dropWhile_eq_nil_iff.2 h]
  rfl

theorem trim_append_of_all (h : ∀ x ∈ more, p x) (l : List α) : trim p (l ++ more) = trim p l := by
  rcases all_or_exists p l with hl | ⟨before, c, after, rfl, hc, -⟩
  · rw [trim_of_all hl, trim_of_all (forall_mem_append.2 ⟨hl, h⟩)]
  · rw [append_assoc, cons_append, trim_append_cons hc, trim_append_cons hc,
      trimEnd_append_of_all h]

theorem trim_trim (p : α → Bool) (l : List α) : trim p (trim p l) = trim p l := by
  rcases all_or_exists p l with hl | ⟨before, c, after, rfl, hc, -⟩
  · rw [trim_of_all hl]
    rfl
  · have hend : trimEnd p (trimEnd p after) = trimEnd p after := rdropWhile_idempotent p after
    rw [trim_append_cons hc, trim_append_cons hc, dropWhile_idempotent, hend]

theorem dropEnd?_eq_some_iff [DecidableEq α] {ending : List α} :
    dropEnd? ending l = some rest ↔ l = rest ++ ending := by
  rw [dropEnd?, Option.map_eq_some_iff]
  constructor
  · rintro ⟨start, hstart, rfl⟩
    rw [dropStart?_eq_some_iff] at hstart
    rw [← reverse_inj, hstart]
    simp
  · rintro rfl
    refine ⟨rest.reverse, ?_, reverse_reverse rest⟩
    rw [dropStart?_eq_some_iff, reverse_append]

end Lists

end AddonBuilder.Text
