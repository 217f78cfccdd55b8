import AddonBuilder.Text.Blank
import AddonBuilder.Text.Split
import Mathlib.Data.List.Basic

/-!
# Cutting texts into lines

A carriage return and the line feed after it end a line together, any other line break ends one
alone, and what is no line break belongs to the line that follows (`linesInduction`).
-/

namespace AddonBuilder.Text

open List

variable {α : Type} {code : α → Nat}

/-- A line break that ends a line together with the letter after it. -/
def Paired (code : α → Nat) (c : α) (l : List α) : Prop :=
  code c = 0xD ∧ ∃ d ∈ l.head?, code d = 0xA

variable {c : α}

theorem isLineBreak_lineFeed (hc : code c = 0xA) : isLineBreak (code c) := by
  rw [hc]
  rfl

theorem not_paired_lineFeed (hc : code c = 0xA) (l : List α) : ¬ Paired code c l := by
  rintro ⟨hreturn, -⟩
  omega

/-- The way in which a text is read. -/
@[elab_as_elim]
theorem linesInduction {P : List α → Prop} (code : α → Nat) (nil : P [])
    (pair : ∀ c d l, code c = 0xD → code d = 0xA → P l → P (c :: d :: l))
    (ends : ∀ c l, isLineBreak (code c) → ¬ Paired code c l → P l → P (c :: l))
    (letter : ∀ c l, isLineBreak (code c) = false → P l → P (c :: l)) (l : List α) : P l := by
  have hsingle : ∀ c, ¬ Paired code c [] := fun c h => by simp [Paired] at h
  fun_induction splitLines code l with
  | case1 => exact nil
  | case2 c hc => exact ends c [] hc (hsingle c) nil
  | case3 c hc => exact letter c [] (by simpa using hc) nil
  | case4 c d l _ hpair ih =>
    rw [Bool.and_eq_true, beq_iff_eq, beq_iff_eq] at hpair
    exact pair c d l hpair.1 hpair.2 ih
  | case5 c d l hc hpair ih => exact ends c _ hc (by simpa [Paired] using hpair) ih
  | case6 c d l hc ih => exact letter c _ (by simpa using hc) ih

variable {l line : List α}

theorem splitLines_nil : splitLines code ([] : List α) = [] := rfl

theorem splitLines_letter (hc : isLineBreak (code c) = false) (l : List α) :
    splitLines code (c :: l) = consLine c (splitLines code l) := by
  cases l <;> simp [splitLines, hc, consLine]

theorem splitLines_pair {d : α} (hc : code c = 0xD) (hd : code d = 0xA) (l : List α) :
    splitLines code (c :: d :: l) = [] :: splitLines code l := by
  simp [splitLines, hc, hd, isLineBreak]

theorem splitLines_break (hc : isLineBreak (code c))
    (hpair : ¬ Paired code c l) : splitLines code (c :: l) = [] :: splitLines code l := by
  cases l with
  | nil => simp [splitLines, hc]
  | cons d l =>
    rw [splitLines, if_pos hc, if_neg fun h => hpair (by simpa [Paired] using h)]

theorem splitLines_ne_nil (code : α → Nat) (hl : l ≠ []) : splitLines code l ≠ [] := by
  have hcons : ∀ (c : α) (lines : List (List α)), consLine c lines ≠ [] := by
    intro c lines
    cases lines <;> simp [consLine]
  fun_cases splitLines code l <;> simp_all

/-- **The letters of a line are letters of the text, and no line breaks.** -/
theorem mem_of_mem_splitLines (h : line ∈ splitLines code l) :
    ∀ x ∈ line, x ∈ l ∧ isLineBreak (code x) = false := by
  intro x hx
  induction l using linesInduction code generalizing line with
  | nil => cases h
  | pair c d l hc hd ih =>
    rw [splitLines_pair hc hd] at h
    grind
  | ends c l hc hpair ih =>
    rw [splitLines_break hc hpair] at h
    rcases mem_cons.1 h with rfl | h
    · cases hx
    · exact (ih h hx).imp_left (mem_cons_of_mem _)
  | letter c l hc ih =>
    rw [splitLines_letter hc] at h
    cases hlines : splitLines code l with
    | nil =>
      obtain rfl : line = [c] := by simpa [hlines, consLine] using h
      obtain rfl := mem_singleton.1 hx
      exact ⟨mem_cons_self, hc⟩
    | cons first more =>
      rw [hlines, consLine] at h
      grind

variable {lines : List (List α)}

section LineFeed

variable {feed : α} (hfeed : code feed = 0xA)

include hfeed

theorem splitLines_concat (l : List α) :
    splitLines code (l ++ [feed]) = splitLines code l ∨
      splitLines code (l ++ [feed]) = splitLines code l ++ [[]] := by
  have hbreak := isLineBreak_lineFeed hfeed
  induction l using linesInduction code with
  | nil =>
    right
    rw [nil_append, splitLines_break hbreak (not_paired_lineFeed hfeed _), splitLines_nil,
      nil_append]
  | pair c d l hc hd ih =>
    rw [cons_append, cons_append, splitLines_pair hc hd, splitLines_pair hc hd]
    rcases ih with ih | ih
    · exact .inl (by rw [ih])
    · exact .inr (by rw [ih, cons_append])
  | ends c l hc hpair ih =>
    rw [cons_append, splitLines_break hc hpair]
    by_cases hpaired : Paired code c (l ++ [feed])
    · -- Only the line feed itself can follow the carriage return.
      obtain rfl : l = [] := by
        cases l with
        | nil => rfl
        | cons d l => exact absurd hpaired hpair
      rw [nil_append, splitLines_pair hpaired.1 hfeed]
      exact .inl rfl
    · rw [splitLines_break hc hpaired]
      rcases ih with ih | ih
      · exact .inl (by rw [ih])
      · exact .inr (by rw [ih, cons_append])
  | letter c l hc ih =>
    rw [cons_append, splitLines_letter hc, splitLines_letter hc]
    cases hlines : splitLines code l with
    | nil =>
      rw [hlines] at ih
      obtain rfl : l = [] := by_contra fun hl => splitLines_ne_nil code hl hlines
      left
      rw [nil_append, splitLines_break hbreak (not_paired_lineFeed hfeed _),
        splitLines_nil, consLine, consLine]
    | cons first more =>
      rw [hlines] at ih
      rcases ih with ih | ih
      · exact .inl (by rw [ih])
      · exact .inr (by rw [ih, cons_append, consLine, consLine, cons_append])

omit hfeed in
theorem splitLines_concat_ne_nil (l : List α) : splitLines code (l ++ [feed]) ≠ [] :=
  splitLines_ne_nil code (by simp)

/-- **After a line feed the lines start afresh.** -/
theorem splitLines_append (l rest : List α) :
    splitLines code (l ++ feed :: rest) = splitLines code (l ++ [feed]) ++ splitLines code rest := by
  have hbreak := isLineBreak_lineFeed hfeed
  induction l using linesInduction code with
  | nil =>
    rw [nil_append, nil_append,
      splitLines_break hbreak (not_paired_lineFeed hfeed _),
      splitLines_break hbreak (not_paired_lineFeed hfeed _), splitLines_nil]
    rfl
  | pair c d l hc hd ih =>
    simp only [cons_append]
    rw [splitLines_pair hc hd, splitLines_pair hc hd, ih, cons_append]
  | ends c l hc hpair ih =>
    simp only [cons_append]
    by_cases hreturn : code c = 0xD
    · cases l with
      | nil =>
        rw [nil_append, nil_append, splitLines_pair hreturn hfeed,
          splitLines_pair hreturn hfeed, splitLines_nil]
        rfl
      | cons d l =>
        rw [splitLines_break (l := (d :: l) ++ feed :: rest) hc hpair,
          splitLines_break (l := (d :: l) ++ [feed]) hc hpair, ih]
        rfl
    · have hsingle : ∀ l', ¬ Paired code c l' := fun l' h => hreturn h.1
      rw [splitLines_break hc (hsingle _), splitLines_break hc (hsingle _), ih, cons_append]
  | letter c l hc ih =>
    simp only [cons_append]
    obtain ⟨first, more, hlines⟩ := exists_cons_of_ne_nil (splitLines_concat_ne_nil l)
    rw [splitLines_letter hc, splitLines_letter hc, ih, hlines]
    rfl

theorem splitLines_line (hline : ∀ x ∈ line, isLineBreak (code x) = false) :
    splitLines code (line ++ [feed]) = [line] := by
  induction line with
  | nil =>
    rw [nil_append, splitLines_break (isLineBreak_lineFeed hfeed)
      (not_paired_lineFeed hfeed _), splitLines_nil]
  | cons c line ih =>
    rw [cons_append, splitLines_letter (hline c mem_cons_self),
      ih fun x hx => hline x (mem_cons_of_mem _ hx), consLine]

theorem splitLines_flatMap (hlines : ∀ line ∈ lines, ∀ x ∈ line, isLineBreak (code x) = false) :
    splitLines code (lines.flatMap (· ++ [feed])) = lines := by
  induction lines with
  | nil => rfl
  | cons line lines ih =>
    rw [flatMap_cons, append_assoc, singleton_append, splitLines_append hfeed,
      splitLines_line hfeed (hlines line mem_cons_self),
      ih fun l hl => hlines l (mem_cons_of_mem _ hl), singleton_append]

omit hfeed in
theorem intercalate_concat (hne : lines ≠ []) :
    [feed].intercalate lines ++ [feed] = lines.flatMap (· ++ [feed]) := by
  induction lines with
  | nil => exact absurd rfl hne
  | cons line lines ih =>
    cases lines with
    | nil => simp
    | cons next lines =>
      rw [intercalate_cons_cons, append_assoc, ih (cons_ne_nil _ _)]
      rfl

omit hfeed in
theorem mem_intercalate {x : α} (h : x ∈ [feed].intercalate lines) :
    x = feed ∨ ∃ line ∈ lines, x ∈ line := by
  induction lines with
  | nil => simp at h
  | cons line lines ih =>
    cases lines with
    | nil => exact .inr ⟨line, mem_cons_self, by simpa using h⟩
    | cons next lines =>
      rw [intercalate_cons_cons, append_assoc, mem_append, mem_append] at h
      grind

/-- **A text survives cutting and gluing exactly if it has no line break but the line feed.** -/
theorem intercalate_splitLines_eq_iff (l : List α) :
    [feed].intercalate (splitLines code (l ++ [feed])) = l ↔
      ∀ x ∈ l, isLineBreak (code x) → x = feed := by
  constructor
  · intro h x hx hbreak
    rw [← h] at hx
    rcases mem_intercalate hx with rfl | ⟨line, hline, hx⟩
    · rfl
    · rw [(mem_of_mem_splitLines hline x hx).2] at hbreak
      cases hbreak
  · intro h
    induction l with
    | nil =>
      rw [nil_append, splitLines_break (isLineBreak_lineFeed hfeed)
        (not_paired_lineFeed hfeed _), splitLines_nil, intercalate_singleton]
    | cons c l ih =>
      have hrest := ih fun x hx => h x (mem_cons_of_mem _ hx)
      obtain ⟨first, more, hlines⟩ := exists_cons_of_ne_nil (splitLines_concat_ne_nil l)
      rw [hlines] at hrest
      by_cases hbreak : isLineBreak (code c)
      · obtain rfl := h c mem_cons_self hbreak
        rw [cons_append, splitLines_break hbreak (not_paired_lineFeed hfeed _), hlines,
          intercalate_cons_cons, hrest]
        rfl
      · rw [cons_append, splitLines_letter (by simpa using hbreak), hlines, consLine]
        cases more with
        | nil => simpa using hrest
        | cons next more =>
          rw [intercalate_cons_cons] at hrest ⊢
          rw [cons_append, cons_append, hrest]

end LineFeed

end AddonBuilder.Text
