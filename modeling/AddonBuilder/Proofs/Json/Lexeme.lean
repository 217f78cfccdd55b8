import AddonBuilder.Json.Parser

/-!
# How numbers and constants are written

A number is an integer part, perhaps a fraction, and perhaps an exponent.
-/

namespace AddonBuilder.Json

namespace Lexeme

def Digits (t : Text) : Prop := t ≠ [] ∧ ∀ c ∈ t, isDigit c = true

/-- A natural number without leading zeros. -/
inductive Whole : Text → Prop
  | zero : Whole [0x30]
  | digits {d : CodePoint} {ds : Text}
      (hd : isDigit d = true) (hzero : d ≠ 0x30) (hds : ∀ c ∈ ds, isDigit c = true) :
      Whole (d :: ds)

/-- The integer part of a number. -/
inductive Integer : Text → Prop
  | positive {t : Text} (h : Whole t) : Integer t
  | negative {t : Text} (h : Whole t) : Integer (0x2D :: t)

/-- The fraction of a number, which may be missing. -/
inductive Fraction : Text → Prop
  | missing : Fraction []
  | point {ds : Text} (h : Digits ds) : Fraction (0x2E :: ds)

/-- The exponent of a number, which may be missing. -/
inductive Exponent : Text → Prop
  | missing : Exponent []
  | unsigned {e : CodePoint} {ds : Text} (he : e = 0x65 ∨ e = 0x45) (h : Digits ds) :
      Exponent (e :: ds)
  | signed {e s : CodePoint} {ds : Text} (he : e = 0x65 ∨ e = 0x45) (hs : s = 0x2B ∨ s = 0x2D)
      (h : Digits ds) :
      Exponent (e :: s :: ds)

theorem Whole.head {t : Text} (h : Whole t) : ∃ d ds, t = d :: ds ∧ isDigit d := by
  cases h with
  | zero => exact ⟨0x30, [], rfl, by decide⟩
  | @digits d ds hd => exact ⟨d, ds, rfl, hd⟩

/-- A visible unit of ASCII that is no quote.  Numbers and constants consist of such units. -/
def Graphic (u : CodePoint) : Prop := 0x20 < u.val ∧ u.val < 0x7F ∧ u ≠ 0x22

instance (u : CodePoint) : Decidable (Graphic u) := inferInstanceAs (Decidable (_ ∧ _ ∧ _))

theorem graphic_of_isDigit {u : CodePoint} (h : isDigit u) : Graphic u := by
  have hrange : 0x30 ≤ u.val ∧ u.val ≤ 0x39 := by simpa [isDigit] using h
  refine ⟨by omega, by omega, ?_⟩
  rintro rfl
  revert hrange
  decide

theorem Whole.graphic {t : Text} (h : Whole t) : ∀ u ∈ t, Graphic u := by
  intro u hu
  cases h with
  | zero =>
    rw [List.mem_singleton.1 hu]
    decide
  | digits hd _ hds =>
    rcases List.mem_cons.1 hu with rfl | hu
    · exact graphic_of_isDigit hd
    · exact graphic_of_isDigit (hds u hu)

theorem Integer.graphic {n : Text} (hn : Integer n) : ∀ u ∈ n, Graphic u := by
  intro u hu
  cases hn with
  | positive h => exact h.graphic u hu
  | negative h =>
    rcases List.mem_cons.1 hu with rfl | hu
    · decide
    · exact h.graphic u hu

theorem Fraction.graphic {f : Text} (hf : Fraction f) : ∀ u ∈ f, Graphic u := by
  intro u hu
  cases hf with
  | missing => cases hu
  | point h =>
    rcases List.mem_cons.1 hu with rfl | hu
    · decide
    · exact graphic_of_isDigit (h.2 u hu)

theorem Exponent.graphic {e : Text} (he : Exponent e) : ∀ u ∈ e, Graphic u := by
  intro u hu
  cases he with
  | missing => cases hu
  | unsigned he h =>
    rcases List.mem_cons.1 hu with rfl | hu
    · rcases he with rfl | rfl <;> decide
    · exact graphic_of_isDigit (h.2 u hu)
  | signed he hs h =>
    rcases List.mem_cons.1 hu with rfl | hu
    · rcases he with rfl | rfl <;> decide
    rcases List.mem_cons.1 hu with rfl | hu
    · rcases hs with rfl | rfl <;> decide
    · exact graphic_of_isDigit (h.2 u hu)

end Lexeme

theorem graphic_of_mem_word (k : Constant) : ∀ u ∈ k.word, Lexeme.Graphic u := by
  have hall : k.word.all (fun u => decide (Lexeme.Graphic u)) := by
    cases k <;> decide
  intro u hu
  exact of_decide_eq_true (List.all_eq_true.1 hall u hu)

/-- A text that can follow a value: it is empty, or starts with white space, a comma or a closing
bracket. -/
def Delimits (rest : Text) : Prop :=
  ∀ u ∈ rest.head?, Text.isAsciiBlank u.val = true ∨ u = 0x2C ∨ u = 0x5D ∨ u = 0x7D

theorem Delimits.not_number {rest : Text} (h : Delimits rest) :
    ∀ c ∈ rest.head?, Lexeme.isDigit c = false ∧ c ≠ 0x2E ∧ c ≠ 0x65 ∧ c ≠ 0x45 := by
  intro c hc
  rcases h c hc with hblank | rfl | rfl | rfl
  · have hval : c.val = 0x20 ∨ 0x9 ≤ c.val ∧ c.val ≤ 0xD := by
      simpa [Text.isAsciiBlank] using hblank
    refine ⟨?_, ?_, ?_, ?_⟩
    · simp [Lexeme.isDigit]
      omega
    all_goals
      rintro rfl
      revert hval
      decide
  all_goals decide

namespace Parser

open Lexeme List

variable {rest n t f e : Text}

theorem digitCount_append {ds : Text} (hds : ∀ c ∈ ds, isDigit c) (rest : Text) :
    digitCount (ds ++ rest) = ds.length + digitCount rest := by
  unfold digitCount
  rw [takeWhile_append_of_pos hds, length_append]

theorem digitCount_eq_zero (hrest : ∀ c ∈ rest.head?, isDigit c = false) : digitCount rest = 0 := by
  cases rest with
  | nil => rfl
  | cons c rest => simp [digitCount, hrest c rfl]

theorem digitCount_split (t : Text) :
    ∃ ds rest, t = ds ++ rest ∧ ds.length = digitCount t ∧ ∀ c ∈ ds, isDigit c :=
  ⟨t.takeWhile isDigit, t.dropWhile isDigit, takeWhile_append_dropWhile.symm, rfl,
    all_eq_true.1 all_takeWhile⟩

theorem integerLength?_append (hn : Integer n) (rest : Text) :
    ∃ more ≤ digitCount rest, integerLength? (n ++ rest) = some (n.length + more) := by
  cases hn with
  | positive h =>
    cases h with
    | zero => exact ⟨0, Nat.zero_le _, by simp [integerLength?]⟩
    | @digits d ds hd hzero hds =>
      have hminus : d ≠ 0x2D := by
        rintro rfl
        revert hd
        decide
      refine ⟨digitCount rest, Nat.le_refl _, ?_⟩
      simp [integerLength?, hminus, hzero, hd, digitCount_append hds]
      omega
  | negative h =>
    cases h with
    | zero => exact ⟨0, Nat.zero_le _, by simp [integerLength?]⟩
    | @digits d ds hd hzero hds =>
      refine ⟨digitCount rest, Nat.le_refl _, ?_⟩
      simp [integerLength?, hzero, hd, digitCount_append hds]
      omega

theorem integerLength?_split {n : Nat} (h : integerLength? t = some n) :
    ∃ i rest, t = i ++ rest ∧ i.length = n ∧ Integer i := by
  -- After a sign, or without one, the digits are measured the same way.
  have hwhole : ∀ (c : CodePoint) (rest : Text) (sign n : Nat),
      (if c = 0x30 then some (sign + 1)
        else if isDigit c then some (sign + 1 + digitCount rest) else none) = some n →
      ∃ w after, c :: rest = w ++ after ∧ sign + w.length = n ∧ Whole w := by
    intro c rest sign n h
    by_cases hzero : c = 0x30
    · subst c
      exact ⟨[0x30], rest, rfl, by simpa using h, .zero⟩
    · by_cases hd : isDigit c
      · obtain ⟨ds, after, hrest, hlen, hds⟩ := digitCount_split rest
        refine ⟨c :: ds, after, by rw [hrest, cons_append], ?_, .digits hd hzero hds⟩
        simp only [hzero, hd, if_true, if_false, Option.some.injEq] at h
        rw [length_cons]
        omega
      · simp [hzero, hd] at h
  unfold integerLength? at h
  cases t with
  | nil => simp at h
  | cons c rest =>
    by_cases hminus : c = 0x2D
    · subst c
      cases rest with
      | nil => simp at h
      | cons d rest =>
        obtain ⟨w, after, hrest, hlen, hw⟩ := hwhole d rest 1 n (by simpa using h)
        refine ⟨0x2D :: w, after, by rw [hrest, cons_append], ?_, .negative hw⟩
        rw [length_cons]
        omega
    · obtain ⟨w, after, hrest, hlen, hw⟩ := hwhole c rest 0 n (by simpa [hminus] using h)
      exact ⟨w, after, hrest, by omega, .positive hw⟩

theorem fractionLength_append (hf : Fraction f) (hne : f ≠ []) (rest : Text) :
    fractionLength (f ++ rest) = f.length + digitCount rest := by
  cases hf with
  | missing => exact absurd rfl hne
  | point h =>
    simp [fractionLength, digitCount_append h.2, h.1]
    omega

theorem fractionLength_split (t : Text) :
    ∃ f rest, t = f ++ rest ∧ f.length = fractionLength t ∧ Fraction f := by
  cases t with
  | nil => exact ⟨[], [], rfl, rfl, .missing⟩
  | cons c after =>
    by_cases hpoint : c = 0x2E ∧ digitCount after ≠ 0
    · obtain ⟨rfl, hpos⟩ := hpoint
      obtain ⟨ds, rest, hafter, hlen, hds⟩ := digitCount_split after
      have hne : ds ≠ [] := length_pos_iff.1 (by omega)
      refine ⟨0x2E :: ds, rest, by rw [hafter, cons_append], ?_, .point ⟨hne, hds⟩⟩
      simp [fractionLength, hpos, hlen]
    · refine ⟨[], c :: after, rfl, ?_, .missing⟩
      simp [fractionLength, hpoint]

theorem exponentLength_append (he : Exponent e) (hne : e ≠ []) (rest : Text) :
    exponentLength (e ++ rest) = e.length + digitCount rest := by
  cases he with
  | missing => exact absurd rfl hne
  | @unsigned e ds he h =>
    have hcount := digitCount_append h.2 rest
    obtain ⟨d, ds', rfl⟩ := exists_cons_of_ne_nil h.1
    have hsign : ¬ (d = 0x2B ∨ d = 0x2D) := by
      have hd := h.2 d mem_cons_self
      rintro (rfl | rfl) <;> revert hd <;> decide
    simp only [cons_append, length_cons] at hcount ⊢
    simp [exponentLength, he, hsign, hcount]
    omega
  | @signed e s ds he hs h =>
    have hpos : ds.length ≠ 0 := by simpa using h.1
    simp [exponentLength, he, hs, digitCount_append h.2, hpos]
    omega

theorem exponentLength_split (t : Text) :
    ∃ e rest, t = e ++ rest ∧ e.length = exponentLength t ∧ Exponent e := by
  cases t with
  | nil => exact ⟨[], [], rfl, rfl, .missing⟩
  | cons c after =>
    by_cases hletter : c = 0x65 ∨ c = 0x45
    · -- The digits stand right after the letter, or after a sign.
      by_cases hsign : ∃ s rest, after = s :: rest ∧ (s = 0x2B ∨ s = 0x2D)
      · obtain ⟨s, rest, rfl, hs⟩ := hsign
        obtain ⟨ds, rest', hrest, hlen, hds⟩ := digitCount_split rest
        by_cases hzero : digitCount rest = 0
        · exact ⟨[], c :: s :: rest, rfl, by simp [exponentLength, hletter, hs, hzero], .missing⟩
        · have hne : ds ≠ [] := length_pos_iff.1 (by omega)
          refine ⟨c :: s :: ds, rest', by simp [hrest], ?_, .signed hletter hs ⟨hne, hds⟩⟩
          simp [exponentLength, hletter, hs, hzero, hlen]
          omega
      · have hlen : exponentLength (c :: after) =
            if digitCount after ≠ 0 then 1 + digitCount after else 0 := by
          cases after with
          | nil => simp [exponentLength, hletter]
          | cons s rest =>
            have hs : ¬ (s = 0x2B ∨ s = 0x2D) := fun h => hsign ⟨s, rest, rfl, h⟩
            simp [exponentLength, hletter, hs]
        rw [hlen]
        obtain ⟨ds, rest', hrest, hlen, hds⟩ := digitCount_split after
        by_cases hzero : digitCount after = 0
        · exact ⟨[], c :: after, rfl, by simp [hzero], .missing⟩
        · have hne : ds ≠ [] := length_pos_iff.1 (by omega)
          refine ⟨c :: ds, rest', by simp [hrest], ?_, .unsigned hletter ⟨hne, hds⟩⟩
          simp [hzero, hlen]
          omega
    · refine ⟨[], c :: after, rfl, ?_, .missing⟩
      simp [exponentLength, hletter]

/-- What a number denotes: an integer if it has neither fraction nor exponent, and a real number
otherwise. -/
def numberDocument (n f e : Text) : Document :=
  if f ++ e = [] then .integer n else .real (n ++ (f ++ e))

theorem number?_of_lengths (hinteger : integerLength? (n ++ (f ++ (e ++ rest))) = some n.length)
    (hfraction : fractionLength (f ++ (e ++ rest)) = f.length)
    (hexponent : exponentLength (e ++ rest) = e.length) :
    number? (n ++ (f ++ (e ++ rest))) = some (numberDocument n f e, (n ++ (f ++ e)).length) := by
  have hdrop : (n ++ (f ++ (e ++ rest))).drop (n.length + f.length) = e ++ rest := by
    rw [← append_assoc, ← length_append, drop_left]
  unfold number? numberDocument
  simp only [hinteger, Option.map_some, drop_left, hfraction, hdrop, hexponent]
  grind

/-- **A number in front of a delimiter is found whole.** -/
theorem number?_append (hn : Integer n) (hf : Fraction f) (he : Exponent e)
    (hrest : Delimits rest) :
    number? (n ++ (f ++ (e ++ rest))) = some (numberDocument n f e, (n ++ (f ++ e)).length) := by
  have hstop := hrest.not_number
  have hcount : digitCount rest = 0 := digitCount_eq_zero fun c hc => (hstop c hc).1
  have hexponent : exponentLength (e ++ rest) = e.length := by
    by_cases hempty : e = []
    · subst e
      cases rest with
      | nil => rfl
      | cons c rest => simp [exponentLength, (hstop c rfl).2.2]
    · rw [exponentLength_append he hempty, hcount, Nat.add_zero]
  have hafterFraction : ∀ c ∈ (e ++ rest).head?, isDigit c = false ∧ c ≠ 0x2E := by
    cases he with
    | missing => exact fun c hc => ⟨(hstop c hc).1, (hstop c hc).2.1⟩
    | unsigned he h => rcases he with rfl | rfl <;> simp <;> decide
    | signed he hs h => rcases he with rfl | rfl <;> simp <;> decide
  have hcount' : digitCount (e ++ rest) = 0 := digitCount_eq_zero fun c hc => (hafterFraction c hc).1
  have hfraction : fractionLength (f ++ (e ++ rest)) = f.length := by
    by_cases hempty : f = []
    · subst f
      cases hafter : e ++ rest with
      | nil => rfl
      | cons c after => simp [fractionLength, (hafterFraction c (by rw [hafter]; rfl)).2]
    · rw [fractionLength_append hf hempty, hcount', Nat.add_zero]
  have hcount'' : digitCount (f ++ (e ++ rest)) = 0 := by
    cases hf with
    | missing => exact hcount'
    | point h => exact digitCount_eq_zero (by simp; decide)
  obtain ⟨more, hmore, hinteger⟩ := integerLength?_append hn (f ++ (e ++ rest))
  obtain rfl : more = 0 := by omega
  exact number?_of_lengths hinteger hfraction hexponent

/-- **What is found as a number is one.** -/
theorem number?_split {d : Document} {k : Nat} (h : number? t = some (d, k)) :
    ∃ n f e rest, t = n ++ (f ++ (e ++ rest)) ∧ k = (n ++ (f ++ e)).length ∧
      Integer n ∧ Fraction f ∧ Exponent e ∧ d = numberDocument n f e := by
  have hlen : ∃ len, integerLength? t = some len := by
    unfold number? at h
    obtain ⟨len, hlen, -⟩ := Option.map_eq_some_iff.1 h
    exact ⟨len, hlen⟩
  obtain ⟨len, hlen⟩ := hlen
  obtain ⟨n, afterInteger, rfl, rfl, hn⟩ := integerLength?_split hlen
  obtain ⟨f, afterFraction, rfl, hflen, hf⟩ := fractionLength_split afterInteger
  obtain ⟨e, rest, rfl, helen, he⟩ := exponentLength_split afterFraction
  rw [number?_of_lengths hlen hflen.symm helen.symm] at h
  grind

theorem integer_head (hn : Integer n) :
    ∃ u rest, n = u :: rest ∧ (isDigit u ∨ u = 0x2D ∧ ∃ d ds, rest = d :: ds ∧ isDigit d) := by
  cases hn with
  | positive h =>
    obtain ⟨d, ds, rfl, hd⟩ := h.head
    exact ⟨d, ds, rfl, .inl hd⟩
  | negative h => exact ⟨0x2D, _, rfl, .inr ⟨rfl, h.head⟩⟩

theorem constant?_append (k : Constant) (rest : Text) : constant? (k.word ++ rest) = some k := by
  cases k <;>
    simp [constant?, constants, Constant.word, Text.ofString, CodePoint.ofChar]

theorem constant?_split {k : Constant} (h : constant? t = some k) : ∃ rest, t = k.word ++ rest := by
  have hword := find?_some (p := fun k : Constant => k.word.isPrefixOf t) h
  obtain ⟨rest, hrest⟩ := isPrefixOf_iff_prefix.1 hword
  exact ⟨rest, hrest.symm⟩

theorem constant?_integer (hn : Integer n) : constant? (n ++ rest) = none := by
  cases h : constant? (n ++ rest) with
  | none => rfl
  | some k =>
    exfalso
    obtain ⟨after, hafter⟩ := constant?_split h
    obtain ⟨u, rest, rfl, hu | ⟨rfl, d, ds, rfl, hd⟩⟩ := integer_head hn
    · cases k <;> (obtain ⟨rfl, -⟩ := cons.inj hafter; revert hu; decide)
    · cases k with
      | minusInfinity =>
        obtain ⟨rfl, -⟩ := cons.inj (cons.inj hafter).2
        revert hd
        decide
      | _ => exact absurd (cons.inj hafter).1 (by decide)

end Parser

end AddonBuilder.Json
