import AddonBuilder.Json.Encoding
import AddonBuilder.Proofs.Json.Lexeme
import Mathlib.Algebra.Group.Nat.Defs

/-!
# Numbers as decimal digits

The digits of a number are written without leading zeros, and are read back to the number.
-/

namespace AddonBuilder.Json

open List CodePoint Text

namespace Lexeme

theorem isDigit_ofChar {c : Char} (h : c.isDigit) : isDigit (ofChar c) := by
  simp only [Char.isDigit, Bool.and_eq_true, decide_eq_true_eq, ge_iff_le,
    UInt32.le_iff_toNat_le] at h
  simp only [isDigit, Bool.and_eq_true, decide_eq_true_eq]
  exact h

def decimal (n : Nat) : Text := (Nat.toDigits 10 n).map ofChar

theorem isDigit_of_mem_decimal {n : Nat} {c : CodePoint} (hc : c ∈ decimal n) : isDigit c := by
  obtain ⟨d, hd, rfl⟩ := mem_map.1 hc
  exact isDigit_ofChar (Nat.isDigit_of_mem_toDigits (by decide) (by decide) hd)

theorem toDigits_head {n : Nat} (hn : 0 < n) : ∃ d ds, Nat.toDigits 10 n = d :: ds ∧ d ≠ '0' := by
  induction n using Nat.strongRecOn with
  | ind n ih =>
    by_cases hlt : n < 10
    · refine ⟨_, _, Nat.toDigits_of_lt_base hlt, ?_⟩
      intro hzero
      have hvalue := Nat.toNat_digitChar_of_lt_ten hlt
      rw [hzero] at hvalue
      have : ('0' : Char).toNat = 48 := rfl
      omega
    · obtain ⟨d, ds, hds, hd⟩ := ih (n / 10) (by omega) (by omega)
      rw [Nat.toDigits_of_base_le (by decide) (by omega), hds]
      exact ⟨d, _, rfl, hd⟩

theorem ofChar_injective {c d : Char} (h : ofChar c = ofChar d) : c = d := by
  have hval : c.toNat = d.toNat := congrArg (fun p : CodePoint => p.val) h
  exact Char.toNat_inj.1 hval

theorem decimal_head {n : Nat} (hn : 0 < n) :
    ∃ d ds, decimal n = d :: ds ∧ isDigit d ∧ d ≠ 0x30 ∧ ∀ c ∈ ds, isDigit c := by
  obtain ⟨d, ds, hdigits, hd⟩ := toDigits_head hn
  have hall : ∀ c ∈ decimal n, isDigit c := fun c hc => isDigit_of_mem_decimal hc
  have hcons : decimal n = ofChar d :: ds.map ofChar := by
    rw [decimal, hdigits, map_cons]
  rw [hcons] at hall ⊢
  refine ⟨_, _, rfl, hall _ (by simp), ?_, fun c hc => hall c (mem_cons_of_mem _ hc)⟩
  intro hzero
  exact hd (ofChar_injective hzero)

theorem whole_append {n : Nat} (hn : 0 < n) {ds : Text} (hds : ∀ c ∈ ds, isDigit c) :
    Whole (decimal n ++ ds) := by
  obtain ⟨d, rest, hdecimal, hd, hzero, hrest⟩ := decimal_head hn
  rw [hdecimal]
  refine .digits hd hzero ?_
  intro c hc
  rcases mem_append.1 hc with hc | hc
  · exact hrest c hc
  · exact hds c hc

theorem whole_take {n k : Nat} (hn : 0 < n) (hk : 0 < k) : Whole ((decimal n).take k) := by
  obtain ⟨d, rest, hdecimal, hd, hzero, hrest⟩ := decimal_head hn
  obtain ⟨j, rfl⟩ := Nat.exists_eq_add_one.2 hk
  rw [hdecimal, take_succ_cons]
  exact .digits hd hzero fun c hc => hrest c (mem_of_mem_take hc)

theorem whole_decimal (n : Nat) : Whole (decimal n) := by
  rcases Nat.eq_zero_or_pos n with rfl | hn
  · exact .zero
  · have h : Whole (decimal n ++ []) := whole_append hn (by simp)
    rwa [append_nil] at h

theorem natural_append (a b : Text) : natural (a ++ b) = natural a * 10 ^ b.length + natural b := by
  -- The digits read so far are shifted by one place for each further digit.
  have hshift : ∀ (b : Text) (m : Nat),
      b.foldl (fun n d => n * 10 + (d.val - 0x30)) m = m * 10 ^ b.length + natural b := by
    intro b
    induction b with
    | nil => simp [natural]
    | cons d b ih =>
      intro m
      have hhead : natural (d :: b) = (d.val - 0x30) * 10 ^ b.length + natural b := by
        rw [natural, foldl_cons, Nat.zero_mul, Nat.zero_add]
        exact ih _
      grind
  rw [natural, foldl_append, hshift]
  rfl

theorem natural_decimal (n : Nat) : natural (decimal n) = n := by
  have hread : ∀ (ds : List Char) (m : Nat), Nat.ofDigitChars 10 ds m =
      (ds.map ofChar).foldl (fun n d => n * 10 + (d.val - 0x30)) m := by
    intro ds
    induction ds with
    | nil => intro m; rfl
    | cons d ds ih =>
      intro m
      rw [Nat.ofDigitChars_cons, ih, Nat.mul_comm]
      rfl
  rw [natural, decimal, ← hread, Nat.ofDigitChars_ten_toDigits]

/-- Zeros at the end of the digits are a power of ten. -/
theorem natural_zeros (k : Nat) : natural (replicate k 0x30) = 0 := by
  induction k with
  | zero => rfl
  | succ k ih =>
    rw [replicate_succ', natural_append, ih]
    decide

theorem decimal_ne_nil (n : Nat) : decimal n ≠ [] := by
  simp [decimal]

theorem sign_of_isDigit {d : CodePoint} (hd : isDigit d) (t : Text) :
    sign (d :: t) = (false, d :: t) := by
  have hminus : d ≠ 0x2D := by
    rintro rfl
    exact absurd hd (by decide)
  have hplus : d ≠ 0x2B := by
    rintro rfl
    exact absurd hd (by decide)
  simp [sign, hminus, hplus]

theorem Whole.sign {t : Text} (h : Whole t) (rest : Text) :
    Lexeme.sign (t ++ rest) = (false, t ++ rest) := by
  obtain ⟨d, ds, rfl, hd⟩ := h.head
  exact sign_of_isDigit hd (ds ++ rest)

theorem ofInt_natCast (n : Nat) : ofInt n = decimal n := by
  simp [ofInt, ofString, decimal, Int.toString_eq_repr, Int.repr_eq_if]

theorem ofInt_negSucc (n : Nat) : ofInt (.negSucc n) = 0x2D :: decimal (n + 1) := by
  have hminus : ofChar '-' = 0x2D := rfl
  simp [ofInt, ofString, decimal, Int.toString_eq_repr, Int.repr_eq_if, hminus]

theorem integer_ofInt (n : Int) : Integer (ofInt n) := by
  cases n with
  | ofNat n =>
    rw [Int.ofNat_eq_natCast, ofInt_natCast]
    exact .positive (whole_decimal n)
  | negSucc n =>
    rw [ofInt_negSucc]
    exact .negative (whole_decimal (n + 1))

/-- An integer is read back from its digits. -/
theorem toInt_ofInt (n : Int) : toInt (ofInt n) = n := by
  cases n with
  | ofNat n =>
    have hsign := (whole_decimal n).sign []
    rw [append_nil] at hsign
    rw [Int.ofNat_eq_natCast, ofInt_natCast, toInt, hsign]
    simp [natural_decimal]
  | negSucc n =>
    rw [ofInt_negSucc]
    simp [toInt, Lexeme.sign, natural_decimal]
    omega

end Lexeme

end AddonBuilder.Json
