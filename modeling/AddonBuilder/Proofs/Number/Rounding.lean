import AddonBuilder.Number.Shortest
import Mathlib.Algebra.Order.Field.Power
import Mathlib.Tactic.FieldSimp
import Mathlib.Tactic.Linarith
import Mathlib.Tactic.Positivity
import Mathlib.Tactic.Ring

/-!
# Rounding to a double-precision number

The value of a pattern is rounded to the pattern (`nearest_exact`).
-/

namespace AddonBuilder.Binary64

/-- Mantissa and exponent as a pattern holds them: the mantissa has 53 bits, or fewer at the least
exponent. -/
structure Canonical (mantissa : Nat) (exponent : Int) : Prop where
  positive : 0 < mantissa
  below : mantissa < 2 * hiddenBit
  least : -1074 ≤ exponent
  greatest : exponent ≤ 971
  normal : hiddenBit ≤ mantissa ∨ exponent = -1074

/-- The double of a mantissa and an exponent. -/
def pattern (negative : Bool) (mantissa : Nat) (exponent : Int) : Binary64 :=
  ofParts negative (lowBits mantissa exponent)

theorem hiddenBit_cast : (hiddenBit : ℚ) = 2 ^ 52 := by
  norm_num [hiddenBit]

theorem exponent_lt_of_mul_lt {a b : Int} {x y : ℚ} (hx : 0 < x) (hy : 1 < y)
    (h : x * y ^ a < x * y ^ b) : a < b :=
  (zpow_lt_zpow_iff_right₀ hy).1 (lt_of_mul_lt_mul_left h hx.le)

/-- The lengths of numerator and denominator give the exponent up to one. -/
theorem guess_spec {num den : Nat} (hnum : num ≠ 0) (hden : den ≠ 0) :
    (2 : ℚ) ^ 51 * 2 ^ ((num.log2 : Int) - den.log2 - 52) < num / den ∧
      (num : ℚ) / den < 2 ^ 53 * 2 ^ ((num.log2 : Int) - den.log2 - 52) := by
  have hnumLow : (2 : ℚ) ^ num.log2 ≤ num := by exact_mod_cast Nat.log2_self_le hnum
  have hnumHigh : (num : ℚ) < 2 ^ num.log2 * 2 := by
    rw [← pow_succ]
    exact_mod_cast Nat.lt_log2_self
  have hdenLow : (2 : ℚ) ^ den.log2 ≤ den := by exact_mod_cast Nat.log2_self_le hden
  have hdenHigh : (den : ℚ) < 2 ^ den.log2 * 2 := by
    rw [← pow_succ]
    exact_mod_cast Nat.lt_log2_self
  have hpower : (2 : ℚ) ^ ((num.log2 : Int) - den.log2 - 52) =
      2 ^ num.log2 / (2 ^ den.log2 * 2 ^ 52) := by
    rw [zpow_sub₀ two_ne_zero, zpow_sub₀ two_ne_zero, div_div]
    norm_cast
  rw [hpower]
  constructor
  · calc (2 : ℚ) ^ 51 * (2 ^ num.log2 / (2 ^ den.log2 * 2 ^ 52))
        = 2 ^ num.log2 / (2 ^ den.log2 * 2) := by ring
      _ < num / den := div_lt_div₀' hnumLow hdenHigh (by positivity) (by positivity)
  · calc (num : ℚ) / den < 2 ^ num.log2 * 2 / 2 ^ den.log2 :=
          div_lt_div₀ hnumHigh hdenLow (by positivity) (by positivity)
      _ = 2 ^ 53 * (2 ^ num.log2 / (2 ^ den.log2 * 2 ^ 52)) := by ring

theorem fitted_spec {x : ℚ} (hx : 0 < x) :
    (2 : ℚ) ^ 52 * 2 ^ fitted x ≤ x ∧ x < 2 ^ 53 * 2 ^ fitted x := by
  have hquotient : ((x.num.natAbs : Nat) : ℚ) / x.den = x := by
    rw [Nat.cast_natAbs, abs_of_pos (Rat.num_pos.2 hx), Rat.num_div_den]
  have hguess := guess_spec (Int.natAbs_ne_zero.2 (Rat.num_ne_zero.2 hx.ne')) x.den_nz
  rw [hquotient] at hguess
  unfold fitted
  dsimp only
  split_ifs with hsmall
  · rw [hiddenBit_cast] at hsmall
    rw [zpow_sub₀ two_ne_zero, zpow_one]
    constructor <;> linarith
  · rw [hiddenBit_cast, not_lt] at hsmall
    exact ⟨hsmall, hguess.2⟩

theorem fitted_eq {x : ℚ} {e : Int} (hx : 0 < x) (hlow : (2 : ℚ) ^ 52 * 2 ^ e ≤ x)
    (hhigh : x < 2 ^ 53 * 2 ^ e) : fitted x = e := by
  obtain ⟨hlow', hhigh'⟩ := fitted_spec hx
  have hdouble : ∀ a : Int, (2 : ℚ) ^ 53 * 2 ^ a = 2 ^ 52 * 2 ^ (a + 1) := by
    intro a
    rw [zpow_add₀ two_ne_zero, zpow_one]
    ring
  rw [hdouble] at hhigh hhigh'
  have h₁ := exponent_lt_of_mul_lt (by positivity) one_lt_two (lt_of_le_of_lt hlow' hhigh)
  have h₂ := exponent_lt_of_mul_lt (by positivity) one_lt_two (lt_of_le_of_lt hlow hhigh')
  omega

section Pattern

variable (negative : Bool) {m : Nat} {e : Int} (hc : Canonical m e)

include hc

theorem Canonical.value_pos : (0 : ℚ) < m * 2 ^ e :=
  mul_pos (by exact_mod_cast hc.positive) (by positivity)

theorem Canonical.value_lt : (m : ℚ) * 2 ^ e < 2 ^ 53 * 2 ^ e := by
  have hbelow : (m : ℚ) < 2 * hiddenBit := by exact_mod_cast hc.below
  rw [hiddenBit_cast] at hbelow
  exact mul_lt_mul_of_pos_right (by linarith) (by positivity)

/-- The exponent found for the value of a pattern is that of the pattern. -/
theorem max_fitted : max (fitted (m * 2 ^ e)) (-1074) = e := by
  have hleast := hc.least
  by_cases hnormal : hiddenBit ≤ m
  · have hlow : (2 : ℚ) ^ 52 ≤ m := by
      rw [← hiddenBit_cast]
      exact_mod_cast hnormal
    rw [fitted_eq hc.value_pos (mul_le_mul_of_nonneg_right hlow (by positivity)) hc.value_lt]
    omega
  · have he := hc.normal.resolve_left hnormal
    have hhigh : (m : ℚ) < 2 ^ 52 := by
      rw [← hiddenBit_cast]
      exact_mod_cast not_le.1 hnormal
    have := exponent_lt_of_mul_lt (by positivity) one_lt_two <|
      (fitted_spec hc.value_pos).1.trans_lt (mul_lt_mul_of_pos_right hhigh (by positivity))
    omega

omit hc in
theorem round_natCast (n : Nat) : round n = n := by
  have hfloor : (n : ℚ).floor = n := Rat.floor_intCast n
  simp [round, hfloor]

/-- A double is rounded to itself. -/
theorem nearest_exact : nearest negative (m * 2 ^ e) = pattern negative m e := by
  have hbelow := hc.below
  have hgreatest := hc.greatest
  have hpower : (2 : ℚ) ^ e ≠ 0 := by positivity
  have hlow : lowBits m e < 0x7FF0000000000000 := by
    unfold lowBits hiddenBit at *
    split_ifs <;> omega
  unfold nearest
  dsimp only
  rw [if_neg hc.value_pos.ne', max_fitted hc, mul_div_cancel_right₀ _ hpower, round_natCast,
    if_pos hlow]
  rfl

end Pattern

theorem decimal_between {n : Nat} (hn : n ≠ 0) (k : Int) :
    (10 : ℚ) ^ (k + size n - 1) ≤ n * 10 ^ k ∧ (n : ℚ) * 10 ^ k < 10 ^ (k + size n) := by
  have hlen : 0 < (Nat.toDigits 10 n).length := List.length_pos_iff.2 Nat.toDigits_ne_nil
  have hhigh := (Nat.length_toDigits_le_iff (n := n) (b := 10) (by decide) hlen).1 (Nat.le_refl _)
  have hlow : 10 ^ ((Nat.toDigits 10 n).length - 1) ≤ n := by
    rcases Nat.eq_zero_or_pos ((Nat.toDigits 10 n).length - 1) with hone | hmore
    · rw [hone]
      omega
    · have := (Nat.length_toDigits_le_iff (b := 10) (n := n) (by decide) hmore).not
      omega
  unfold size
  generalize (Nat.toDigits 10 n).length = size at *
  constructor
  · rw [show k + size - 1 = ((size - 1 : Nat) : Int) + k by omega, zpow_add₀ (by norm_num),
      zpow_natCast]
    exact mul_le_mul_of_nonneg_right (by exact_mod_cast hlow) (by positivity)
  · rw [add_comm, zpow_add₀ (by norm_num), zpow_natCast]
    exact mul_lt_mul_of_pos_right (by exact_mod_cast hhigh) (by positivity)

/-- The place before the first digit depends on the value alone. -/
theorem add_size_eq {n n' : Nat} {k k' : Int} (hn : n ≠ 0) (hn' : n' ≠ 0)
    (h : (n : ℚ) * 10 ^ k = n' * 10 ^ k') : k + size n = k' + size n' := by
  obtain ⟨hlow, hhigh⟩ := decimal_between hn k
  obtain ⟨hlow', hhigh'⟩ := decimal_between hn' k'
  have hten : (1 : ℚ) < 10 := by norm_num
  have h₁ := (zpow_lt_zpow_iff_right₀ hten).1 (hlow.trans_lt (h ▸ hhigh'))
  have h₂ := (zpow_lt_zpow_iff_right₀ hten).1 (hlow'.trans_lt (h ▸ hhigh))
  omega

/-- Rounding looks at the value and not at the digits. -/
theorem ofDecimal_congr (negative : Bool) {n n' : Nat} {k k' : Int}
    (h : (n : ℚ) * 10 ^ k = n' * 10 ^ k') : ofDecimal negative n k = ofDecimal negative n' k' := by
  have hzero : n = 0 ↔ n' = 0 := by
    have := congrArg (· = 0) h
    simpa [zpow_ne_zero] using this
  unfold ofDecimal
  by_cases hn : n = 0
  · rw [if_pos hn, if_pos (hzero.1 hn)]
  · have hn' := mt hzero.2 hn
    rw [if_neg hn, if_neg hn', add_size_eq hn hn' h, h]

theorem two_zpow_le {a : Int} (ha : 0 ≤ a) : (2 : ℚ) ^ a ≤ 10 ^ a :=
  zpow_le_zpow_left₀ ha zero_le_two (by norm_num)

theorem ten_zpow_le {a : Int} (ha : a ≤ 0) : (10 : ℚ) ^ a ≤ 2 ^ a := by
  have := inv_anti₀ (by positivity) (two_zpow_le (neg_nonneg.2 ha))
  simpa only [← zpow_neg, neg_neg] using this

theorem decimal_range {n m : Nat} {k e : Int} (hc : Canonical m e) (hn : n ≠ 0)
    (h : (n : ℚ) * 10 ^ k = m * 2 ^ e) : -1200 ≤ k + size n ∧ k + size n ≤ 1200 := by
  obtain ⟨hten, hten'⟩ := decimal_between hn k
  rw [h] at hten hten'
  have hleast := hc.least
  have hgreatest := hc.greatest
  constructor
  · by_contra hsmall
    have hpower := ten_zpow_le (a := k + size n) (by omega)
    have hunit : (2 : ℚ) ^ e ≤ m * 2 ^ e :=
      le_mul_of_one_le_left (by positivity) (by exact_mod_cast hc.positive)
    have := (zpow_lt_zpow_iff_right₀ one_lt_two).1 (hunit.trans_lt (hten'.trans_le hpower))
    omega
  · by_contra hlarge
    have hpower := two_zpow_le (a := k + size n - 1) (by omega)
    have hbelow := hc.value_lt
    rw [← zpow_natCast, ← zpow_add₀ two_ne_zero] at hbelow
    have := (zpow_lt_zpow_iff_right₀ one_lt_two).1 (hpower.trans_lt (hten.trans_lt hbelow))
    omega

theorem ofDecimal_exact (negative : Bool) {n m : Nat} {k e : Int} (hc : Canonical m e)
    (h : (n : ℚ) * 10 ^ k = m * 2 ^ e) : ofDecimal negative n k = pattern negative m e := by
  have hn : n ≠ 0 := by
    rintro rfl
    simp [hc.value_pos.ne] at h
  have hrange := decimal_range hc hn h
  rw [ofDecimal, if_neg hn, if_neg (by omega), if_neg (by omega), h, nearest_exact negative hc]

theorem value_allDigits (m : Nat) (e : Int) :
    ((allDigits m e).digits : ℚ) * 10 ^ (allDigits m e).exponent = m * 2 ^ e := by
  cases e with
  | ofNat e => simp [allDigits]
  | negSucc e =>
    have hten : (10 : ℚ) ^ (e + 1) = 2 ^ (e + 1) * 5 ^ (e + 1) := by
      rw [← mul_pow]
      norm_num
    simp only [allDigits, Nat.pow_eq, zpow_negSucc, hten]
    push_cast
    field_simp

/-- The shortest digits of a double are read back as it. -/
theorem ofDecimal_shortest (negative : Bool) {m : Nat} {e : Int} (hc : Canonical m e) {d : Decimal}
    (hd : d = shortest (pattern negative m e) negative m e) :
    ofDecimal negative d.digits d.exponent = pattern negative m e := by
  subst hd
  unfold shortest
  dsimp only
  cases hfound : List.find? _ _ with
  | none => exact ofDecimal_exact negative hc (value_allDigits m e)
  | some d =>
    have hreads := List.find?_some hfound
    exact of_decide_eq_true hreads

theorem eq_ofParts {x : Binary64} {low : Nat}
    (h : x.bits.toNat = (if signBit ≤ x.bits.toNat then signBit else 0) + low) :
    x = ofParts (decide (signBit ≤ x.bits.toNat)) low := by
  have hparts : (if decide (signBit ≤ x.bits.toNat) then signBit else 0) + low =
      x.bits.toNat := by
    simpa using h.symm
  rw [ofParts, hparts]
  simp

theorem pattern_of_view {x : Binary64} {negative : Bool} {m : Nat} {e : Int}
    (h : x.view = .finite negative m e) : x = pattern negative m e ∧ (m = 0 ∨ Canonical m e) := by
  have hbits := x.bits.toNat_lt
  unfold view at h
  dsimp only at h
  split_ifs at h with hmax hfraction hzero
  · cases h
    constructor
    · rw [pattern, lowBits, if_pos (by unfold hiddenBit; omega)]
      apply eq_ofParts
      unfold signBit hiddenBit at *
      split_ifs <;> omega
    · by_cases hnull : x.bits.toNat % hiddenBit = 0
      · exact .inl hnull
      · exact .inr ⟨by omega, by unfold hiddenBit; omega, by omega, by omega, .inr rfl⟩
  · cases h
    constructor
    · rw [pattern, lowBits, if_neg (by omega)]
      apply eq_ofParts
      unfold signBit hiddenBit at *
      split_ifs <;> omega
    · exact .inr ⟨by unfold hiddenBit; omega, by unfold hiddenBit; omega, by omega,
        by omega, .inl (by omega)⟩

theorem infinity_of_view {x : Binary64} {negative : Bool} (h : x.view = .infinite negative) :
    x = infinity negative := by
  have hbits := x.bits.toNat_lt
  unfold view at h
  dsimp only at h
  split_ifs at h with hmax hfraction
  cases h
  apply eq_ofParts
  unfold signBit hiddenBit at *
  split_ifs <;> omega

end AddonBuilder.Binary64
