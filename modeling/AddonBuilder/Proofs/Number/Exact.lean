import AddonBuilder.Number.Arithmetic
import AddonBuilder.Proofs.Number.Rounding
import Mathlib.Data.Rat.Floor

/-!
# Natural numbers that are doubles

A natural number is **exact** if it is the value of the double nearest to it.
-/

namespace AddonBuilder.Binary64

/-- The double nearest to a natural number. -/
def ofNat (n : Nat) : Binary64 := nearest false n

/-- A natural number that is the value of a double. -/
def IsExact (n : Nat) : Prop := (ofNat n).toRat? = some (n : ℚ)

/-- The remainder of doubles: that of their values, with the sign of the first. -/
def remainder (x y : Binary64) : Binary64 :=
  match x.toRat?, y.toRat? with
  | some a, some b =>
    if b = 0 then nan else nearest x.isNegative (|a| - |b| * (|a| / |b|).floor)
  | some _, none => if y.isNaN then nan else x
  | none, _ => nan

/-- Whether two doubles are equal as numbers. -/
def same (x y : Binary64) : Bool := compare? x y == some .eq

instance (n : Nat) : Decidable (IsExact n) := inferInstanceAs (Decidable (_ = _))

/-- A mantissa that need not have all of its bits can be given them. -/
theorem exists_canonical {c : Nat} {e : Int} (hc : 0 < c) (hbelow : c < 2 * hiddenBit)
    (hleast : -1074 ≤ e) (hgreatest : e ≤ 971) :
    ∃ m f, Canonical m f ∧ (m : ℚ) * 2 ^ f = c * 2 ^ e := by
  obtain ⟨steps, rfl⟩ : ∃ steps : Nat, e = steps - 1074 := ⟨(e + 1074).toNat, by omega⟩
  induction steps generalizing c with
  | zero => exact ⟨c, _, ⟨hc, hbelow, by omega, by omega, .inr (by omega)⟩, rfl⟩
  | succ steps ih =>
    by_cases hfull : hiddenBit ≤ c
    · exact ⟨c, _, ⟨hc, hbelow, hleast, hgreatest, .inl hfull⟩, rfl⟩
    · obtain ⟨m, f, hcanonical, hvalue⟩ := @ih (2 * c) (by omega) (by omega) (by omega) (by omega)
      refine ⟨m, f, hcanonical, hvalue.trans ?_⟩
      rw [show ((steps + 1 : Nat) : Int) - 1074 = (steps - 1074 : Int) + 1 by omega,
        zpow_add_one₀ two_ne_zero]
      push_cast
      ring

/-- A pattern is viewed as its mantissa and exponent. -/
theorem view_pattern (negative : Bool) {m : Nat} {e : Int} (hc : Canonical m e) :
    (pattern negative m e).view = .finite negative m e := by
  obtain ⟨-, hbelow, hleast, hgreatest, hnormal⟩ := hc
  obtain ⟨high, hhigh⟩ : ∃ high, high = if negative then signBit else 0 := ⟨_, rfl⟩
  have hsign : high = 0 ∨ high = signBit := by
    cases negative <;> simp [hhigh]
  have hnegative : ∀ low < signBit, decide (signBit ≤ high + low) = negative := by
    grind
  have hbits : (pattern negative m e).bits.toNat = high + lowBits m e := by
    unfold pattern ofParts
    rw [← hhigh, Nat.toUInt64, UInt64.toNat_ofNat']
    unfold lowBits signBit hiddenBit at *
    split_ifs <;> omega
  unfold view
  rw [hbits]
  unfold lowBits signBit hiddenBit at *
  grind

/-- **The exact numbers** are zero and the values of patterns. -/
theorem isExact_iff {n : Nat} : IsExact n ↔ n = 0 ∨ ∃ m e, Canonical m e ∧ (n : ℚ) = m * 2 ^ e := by
  constructor
  · intro h
    unfold IsExact toRat? at h
    split at h
    · rename_i negative m e hview
      have hvalue := Option.some.inj h
      rcases (pattern_of_view hview).2 with rfl | hc
      · left
        simpa using hvalue.symm
      · right
        have hpos := hc.value_pos
        refine ⟨m, e, hc, ?_⟩
        cases negative with
        | false => simpa using hvalue.symm
        | true =>
          simp only [if_true] at hvalue
          linarith
    · cases h
  · rintro (rfl | ⟨m, e, hc, hvalue⟩)
    · decide +kernel
    · rw [IsExact, ofNat, hvalue, nearest_exact false hc, toRat?, view_pattern false hc]
      simp

theorem isExact_of_mul {n c : Nat} {e : Int} (hbelow : c < 2 * hiddenBit) (hleast : -1074 ≤ e)
    (hgreatest : e ≤ 971) (h : (n : ℚ) = c * 2 ^ e) : IsExact n := by
  rw [isExact_iff]
  rcases Nat.eq_zero_or_pos c with rfl | hc
  · left
    simpa using h
  · obtain ⟨m, f, hcanonical, hvalue⟩ := exists_canonical hc hbelow hleast hgreatest
    exact .inr ⟨m, f, hcanonical, h.trans hvalue.symm⟩

/-- Up to 2⁵³ every number is a double. -/
theorem isExact_of_le {n : Nat} (h : n ≤ 2 ^ 53) : IsExact n := by
  rcases Nat.lt_or_eq_of_le h with h | rfl
  · exact isExact_of_mul (c := n) (e := 0) (by unfold hiddenBit; omega) (by decide) (by decide) (by simp)
  · exact isExact_of_mul (c := 1) (e := 53) (by decide) (by decide) (by decide) (by norm_num)

/-- Remainders of multiples of a number are multiples of it. -/
theorem cast_mod {n k a b : Nat} {u : ℚ} (hu : 0 < u) (hn : (n : ℚ) = a * u) (hk : (k : ℚ) = b * u) :
    ((n % k : Nat) : ℚ) = (a % b : Nat) * u := by
  have hquotient : n / k = a / b := by
    have hfloor := Rat.floor_natCast_div_natCast n k
    rw [hn, hk, mul_div_mul_right _ _ hu.ne', Rat.floor_natCast_div_natCast] at hfloor
    exact_mod_cast hfloor.symm
  have hleft : ((n % k : Nat) : ℚ) + k * (n / k : Nat) = n := by exact_mod_cast Nat.mod_add_div n k
  have hright : ((a % b : Nat) : ℚ) + b * (a / b : Nat) = a := by exact_mod_cast Nat.mod_add_div a b
  rw [hquotient, hk, hn, ← hright] at hleft
  linarith

/-- **Remainders of exact numbers are exact.** -/
theorem IsExact.mod {n k : Nat} (hn : IsExact n) (hk : IsExact k) : IsExact (n % k) := by
  rcases isExact_iff.1 hn with rfl | ⟨m, e, hm, hvalue⟩
  · rwa [Nat.zero_mod]
  rcases isExact_iff.1 hk with rfl | ⟨l, f, hl, hvalue'⟩
  · rwa [Nat.mod_zero]
  have hscale : ∀ (c d : Nat) (g : Int), (c : ℚ) * 2 ^ (g + d) = (c * 2 ^ d : Nat) * 2 ^ g := by
    intro c d g
    rw [zpow_add₀ two_ne_zero, zpow_natCast]
    push_cast
    ring
  -- Both are multiples of the smaller power, and the remainder is below the one with that power.
  rcases Int.le_total e f with h | h
  · obtain ⟨d, rfl⟩ := Int.le.dest h
    have hmod := cast_mod (by positivity) hvalue (hvalue'.trans (hscale l d e))
    exact isExact_of_mul ((Nat.mod_le _ _).trans_lt hm.below) hm.least hm.greatest hmod
  · obtain ⟨d, rfl⟩ := Int.le.dest h
    have hmod := cast_mod (by positivity) (hvalue.trans (hscale m d f)) hvalue'
    exact isExact_of_mul ((Nat.mod_lt _ hl.positive).trans hl.below) hl.least hl.greatest hmod

theorem isNegative_of_view {x : Binary64} {negative : Bool} {m : Nat} {e : Int}
    (h : x.view = .finite negative m e) : x.isNegative = negative := by
  unfold view at h
  dsimp only at h
  split_ifs at h <;> cases h <;> rfl

theorem IsExact.isNegative_eq {n : Nat} (h : IsExact n) : (ofNat n).isNegative = false := by
  rcases isExact_iff.1 h with rfl | ⟨m, e, hc, hvalue⟩
  · decide +kernel
  · rw [ofNat, hvalue, nearest_exact false hc]
    exact isNegative_of_view (view_pattern false hc)

/-- **The remainder of exact numbers as doubles** is their remainder. -/
theorem IsExact.remainder_eq {n k : Nat} (hn : IsExact n) (hk : IsExact k) (hpos : 0 < k) :
    remainder (ofNat n) (ofNat k) = ofNat (n % k) := by
  have hzero : (k : ℚ) ≠ 0 := by exact_mod_cast hpos.ne'
  have hmod : ((n % k : Nat) : ℚ) + k * (n / k : Nat) = n := by exact_mod_cast Nat.mod_add_div n k
  have hfloor : ((n : ℚ) / k).floor = ((n / k : Nat) : Int) := Rat.floor_natCast_div_natCast n k
  unfold remainder
  rw [show (ofNat n).toRat? = _ from hn, show (ofNat k).toRat? = _ from hk, hn.isNegative_eq]
  dsimp only
  rw [if_neg hzero, Nat.abs_cast, Nat.abs_cast, hfloor, Int.cast_natCast, ← hmod,
    add_sub_cancel_right]
  rfl

/-- **Finite doubles are compared by their values.** -/
theorem compare?_eq {x y : Binary64} {a b : ℚ} (hx : x.toRat? = some a) (hy : y.toRat? = some b) :
    compare? x y = some (compare a b) := by
  unfold toRat? at hx hy
  split at hx <;> cases hx
  rename_i s m e hview
  split at hy <;> cases hy
  rename_i s' m' e' hview'
  have hshift : ∀ (s : Bool) (m : Nat) {e low : Int}, low ≤ e →
      (if s then -1 else 1 : ℚ) * m * 2 ^ e =
        (((if s then -1 else 1) * (m <<< (e - low).toNat : Nat) : Int) : ℚ) * 2 ^ low := by
    intro s m e low hle
    obtain ⟨d, rfl⟩ := Int.le.dest hle
    rw [show (low + d - low).toNat = d by omega, Nat.shiftLeft_eq, zpow_add₀ two_ne_zero,
      zpow_natCast]
    cases s <;> push_cast <;> ring
  unfold compare?
  rw [hview, hview']
  dsimp only
  rw [hshift s m (min_le_left e e'), hshift s' m' (min_le_right e e')]
  have hpos : (0 : ℚ) < 2 ^ min e e' := by positivity
  congr 1
  simp only [compare, compareOfLessAndEq, mul_lt_mul_iff_left₀ hpos, mul_left_inj' hpos.ne',
    Int.cast_lt, Int.cast_inj]

section Compared

variable {n k : Nat} (hn : IsExact n) (hk : IsExact k)

include hn hk

theorem IsExact.same_eq : same (ofNat n) (ofNat k) = (n == k) := by
  rw [same, compare?_eq hn hk, Bool.eq_iff_iff, beq_iff_eq, beq_iff_eq, Option.some_inj,
    compare_eq_iff_eq, Nat.cast_inj]

theorem IsExact.le_eq : le (ofNat n) (ofNat k) = decide (n ≤ k) := by
  rw [le, lt, compare?_eq hn hk, Bool.eq_iff_iff, Bool.or_eq_true, beq_iff_eq, beq_iff_eq,
    Option.some_inj, Option.some_inj, compare_lt_iff_lt, compare_eq_iff_eq, Nat.cast_lt, Nat.cast_inj,
    decide_eq_true_iff, Nat.le_iff_lt_or_eq]

end Compared

end AddonBuilder.Binary64
