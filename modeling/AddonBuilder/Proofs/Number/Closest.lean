import AddonBuilder.Proofs.Number.Exact

/-!
# The closest double

A number is rounded to a double that is closest to it: no finite double is closer, and the result is
infinite only beyond all finite doubles (`nearest_closest`).
-/

namespace AddonBuilder.Binary64

/-- A number by its sign and its amount. -/
def signed (negative : Bool) (q : ℚ) : ℚ := if negative then -q else q

/-- No finite double is closer to a number, and an infinite one stands for a number that exceeds
them all. -/
def Closest (x : Binary64) (q : ℚ) : Prop :=
  ∀ y v, toRat? y = some v → x.toRat?.elim (|v| < |q|) fun w => |w - q| ≤ |v - q|

variable {x q : ℚ} {m : Nat} {e : Int}

theorem abs_signed (negative : Bool) (hq : 0 ≤ q) : |signed negative q| = q := by
  cases negative <;> simp [signed, abs_of_nonneg hq]

theorem abs_sub_signed (a b : Bool) (hx : 0 ≤ x) (hq : 0 ≤ q) :
    |x - q| ≤ |signed a x - signed b q| := by
  have h := abs_abs_sub_abs_le (signed a x) (signed b q)
  rwa [abs_signed a hx, abs_signed b hq] at h

/-- The values of finite doubles. -/
theorem exists_of_toRat? {y : Binary64} {v : ℚ} (h : y.toRat? = some v) :
    ∃ negative, ∃ (m : Nat) (e : Int), v = signed negative (m * 2 ^ e) ∧ m < 2 * hiddenBit ∧
      -1074 ≤ e ∧ e ≤ 971 := by
  unfold toRat? at h
  split at h
  · rename_i negative m e hview
    have hv : v = signed negative (m * 2 ^ e) := by
      rw [← Option.some.inj h]
      cases negative <;> simp [signed]
    rcases (pattern_of_view hview).2 with rfl | hc
    · exact ⟨negative, 0, 0, by simpa using hv, by decide, by decide, by decide⟩
    · exact ⟨negative, m, e, hv, hc.below, hc.least, hc.greatest⟩
  · cases h

theorem toRat?_pattern (negative : Bool) (hc : Canonical m e) :
    (pattern negative m e).toRat? = some (signed negative (m * 2 ^ e)) := by
  rw [toRat?, view_pattern negative hc]
  cases negative <;> simp [signed]

/-- No natural number is closer than the one that is rounded to. -/
theorem round_closest {t : ℚ} (ht : 0 ≤ t) (n : Nat) : |(round t : ℚ) - t| ≤ |(n : ℚ) - t| := by
  obtain ⟨b, hb⟩ := Int.eq_ofNat_of_zero_le (Int.floor_nonneg.2 ht)
  have hlow : (b : ℚ) ≤ t := by exact_mod_cast hb ▸ Int.floor_le t
  have hhigh : t < b + 1 := by exact_mod_cast hb ▸ Int.lt_floor_add_one t
  have hround : round t = if t < b + 1 / 2 || (t = b + 1 / 2 && b % 2 = 0) then b else b + 1 := by
    rw [round, show t.floor = b from hb, Int.toNat_natCast]
  have hother : (n : ℚ) ≤ b ∨ (b : ℚ) + 1 ≤ n := by
    rcases Nat.lt_or_ge b n with h | h
    · exact .inr (by exact_mod_cast h)
    · exact .inl (by exact_mod_cast h)
  rw [hround]
  split_ifs with h
  · grind
  · grind

/-- The step between the doubles around a number. -/
def step (x : ℚ) : Int := max (fitted x) (-1074)

/-- The multiple of the step that a number is rounded to. -/
def multiple (x : ℚ) : Nat := round (x / 2 ^ step x)

section Positive

variable (hx : 0 < x)

include hx

theorem lt_step : x < 2 ^ 53 * 2 ^ step x := by
  refine (fitted_spec hx).2.trans_le ?_
  have : (2 : ℚ) ^ fitted x ≤ 2 ^ step x := zpow_le_zpow_right₀ one_le_two (le_max_left _ _)
  linarith

theorem step_le (hleast : -1074 < step x) : 2 ^ 52 * 2 ^ step x ≤ x := by
  have : step x = fitted x := by
    unfold step at *
    omega
  rw [this]
  exact (fitted_spec hx).1

/-- No multiple of the step is closer than the one that is rounded to. -/
theorem multiple_closest (n : Nat) :
    |multiple x * 2 ^ step x - x| ≤ |(n : ℚ) * 2 ^ step x - x| := by
  have hpos : (0 : ℚ) < 2 ^ step x := by positivity
  have hscale : ∀ a : ℚ, |a * 2 ^ step x - x| = |a - x / 2 ^ step x| * 2 ^ step x := by
    intro a
    rw [← abs_of_pos hpos, ← abs_mul, abs_of_pos hpos, sub_mul, div_mul_cancel₀ _ hpos.ne']
  rw [hscale, hscale]
  exact mul_le_mul_of_nonneg_right (round_closest (by positivity) n) hpos.le

theorem multiple_le_of {n : Nat} (h : x ≤ n * 2 ^ step x) : multiple x ≤ n := by
  have hclosest := (le_abs_self _).trans (multiple_closest hx n)
  rw [abs_of_nonneg (sub_nonneg.2 h)] at hclosest
  have := le_of_mul_le_mul_right (sub_le_sub_iff_right x |>.1 hclosest) (by positivity)
  exact_mod_cast this

theorem le_multiple_of {n : Nat} (h : n * 2 ^ step x ≤ x) : n ≤ multiple x := by
  have hclosest := (neg_le_abs _).trans (multiple_closest hx n)
  rw [abs_of_nonpos (sub_nonpos.2 h), neg_le_neg_iff] at hclosest
  have := le_of_mul_le_mul_right (sub_le_sub_iff_right x |>.1 hclosest) (by positivity)
  exact_mod_cast this

/-- **No double is closer** than the multiple of the step: doubles with a smaller step lie below
those that have 53 bits at this step. -/
theorem multiple_closest_double (hbelow : m < 2 * hiddenBit) (hleast : -1074 ≤ e) :
    |multiple x * 2 ^ step x - x| ≤ |(m : ℚ) * 2 ^ e - x| := by
  rcases Int.lt_or_le e (step x) with hsmall | hlarge
  · have hlow := step_le hx (by omega)
    have hvalue : (m : ℚ) * 2 ^ e ≤ 2 ^ 52 * 2 ^ step x := by
      have hm : (m : ℚ) ≤ 2 ^ 53 := by
        rw [show (2 : ℚ) ^ 53 = 2 * hiddenBit by rw [hiddenBit_cast]; norm_num]
        exact_mod_cast hbelow.le
      have he : (2 : ℚ) ^ e * 2 ≤ 2 ^ step x := by
        rw [← zpow_add_one₀ two_ne_zero]
        exact zpow_le_zpow_right₀ one_le_two (by omega)
      have := mul_le_mul_of_nonneg_right hm (by positivity : (0 : ℚ) ≤ 2 ^ e)
      linarith
    refine (multiple_closest hx hiddenBit).trans ?_
    rw [hiddenBit_cast, abs_of_nonpos (by linarith), abs_of_nonpos (by linarith)]
    linarith
  · obtain ⟨d, rfl⟩ := Int.le.dest hlarge
    have hmultiple : (m : ℚ) * 2 ^ (step x + d) = (m * 2 ^ d : Nat) * 2 ^ step x := by
      rw [zpow_add₀ two_ne_zero, zpow_natCast]
      push_cast
      ring
    rw [hmultiple]
    exact multiple_closest hx _

theorem multiple_le : multiple x ≤ 2 * hiddenBit := by
  apply multiple_le_of hx
  push_cast
  rw [hiddenBit_cast]
  linarith [lt_step hx]

theorem multiple_normal : hiddenBit ≤ multiple x ∨ step x = -1074 := by
  have hleast : -1074 ≤ step x := le_max_right _ _
  by_cases h : step x = -1074
  · exact .inr h
  · left
    apply le_multiple_of hx
    rw [hiddenBit_cast]
    exact step_le hx (by omega)

omit hx in
/-- The next power of two is held with one bit less and the next exponent. -/
theorem lowBits_next (he : -1074 ≤ e) : lowBits (2 * hiddenBit) e = lowBits hiddenBit (e + 1) := by
  have hplace : (e + 1 + 1074).toNat = (e + 1074).toNat + 1 := by omega
  have hbit : ¬ 2 * hiddenBit < hiddenBit := by omega
  rw [lowBits, lowBits, if_neg hbit, if_neg (lt_irrefl _), hplace, Nat.sub_self, Nat.two_mul,
    Nat.add_sub_cancel]
  ring

/-- A multiple of the step that is in the range of the format is the value of its pattern. -/
theorem toRat?_multiple (negative : Bool)
    (hlow : lowBits (multiple x) (step x) < 0x7FF0000000000000) :
    (pattern negative (multiple x) (step x)).toRat? =
      some (signed negative (multiple x * 2 ^ step x)) := by
  have hleast : -1074 ≤ step x := le_max_right _ _
  have hnormal := multiple_normal hx
  have hgreatest : ∀ {m e}, hiddenBit ≤ m ∨ e = -1074 →
      lowBits m e < 0x7FF0000000000000 → e ≤ 971 := by
    intro m e hnormal hlow
    unfold lowBits hiddenBit at *
    split_ifs at hlow <;> omega
  rcases Nat.eq_zero_or_pos (multiple x) with hzero | hpos
  · have hstep : step x = -1074 := hnormal.resolve_left (by rw [hzero]; decide)
    rw [hzero, hstep]
    cases negative <;> decide +kernel
  rcases Nat.lt_or_eq_of_le (multiple_le hx) with hlt | heq
  · exact toRat?_pattern negative ⟨hpos, hlt, hleast, hgreatest hnormal hlow, hnormal⟩
  · rw [heq, lowBits_next hleast] at hlow
    have hc : Canonical hiddenBit (step x + 1) :=
      ⟨by decide, by decide, by omega, hgreatest (.inl le_rfl) hlow, .inl le_rfl⟩
    rw [pattern, heq, lowBits_next hleast, show ofParts _ _ = pattern negative _ _ from rfl,
      toRat?_pattern negative hc, zpow_add_one₀ two_ne_zero]
    push_cast
    ring_nf

/-- A number whose multiple of the step is out of range exceeds every double. -/
theorem lt_of_overflow (hlow : 0x7FF0000000000000 ≤ lowBits (multiple x) (step x))
    (hbelow : m < 2 * hiddenBit) (hgreatest : e ≤ 971) : (m : ℚ) * 2 ^ e < x := by
  have hmost := multiple_le hx
  have hstep : 971 ≤ step x ∧ (step x = 971 → multiple x = 2 * hiddenBit) := by
    unfold lowBits hiddenBit at *
    split_ifs at hlow <;> omega
  have hvalue : (m : ℚ) * 2 ^ e ≤ (2 * hiddenBit - 1 : Nat) * 2 ^ (971 : Int) :=
    mul_le_mul (by exact_mod_cast Nat.le_sub_one_of_lt hbelow)
      (zpow_le_zpow_right₀ one_le_two hgreatest) (by positivity) (by positivity)
  by_contra hle
  have hx' := (not_lt.1 hle).trans hvalue
  by_cases hlast : step x = 971
  · rw [← hlast] at hx'
    have := multiple_le_of hx hx'
    rw [hstep.2 hlast] at this
    exact absurd this (by decide)
  · have hpower : (2 : ℚ) ^ (972 : Int) ≤ 2 ^ step x := zpow_le_zpow_right₀ one_le_two (by omega)
    have hhidden : ((2 * hiddenBit - 1 : Nat) : ℚ) < 2 * 2 ^ 52 := by
      rw [← hiddenBit_cast]
      exact_mod_cast Nat.sub_one_lt (by decide)
    have := mul_lt_mul_of_pos_right hhidden (by positivity : (0 : ℚ) < 2 ^ (971 : Int))
    rw [show (972 : Int) = 971 + 1 by rfl, zpow_add_one₀ two_ne_zero] at hpower
    have hlow := step_le hx (by omega)
    grind

end Positive

/-- **A number is rounded to a closest double.** -/
theorem nearest_closest (negative : Bool) (hx : 0 ≤ x) :
    Closest (nearest negative x) (signed negative x) := by
  intro y v hy
  obtain ⟨s, m, e, rfl, hbelow, hleast, hgreatest⟩ := exists_of_toRat? hy
  have hvalue : (0 : ℚ) ≤ m * 2 ^ e := by positivity
  rcases hx.eq_or_lt with rfl | hpos
  · have hzero : (nearest negative 0).toRat? = some 0 := by
      cases negative <;> decide +kernel
    have hsigned : signed negative 0 = 0 := by cases negative <;> simp [signed]
    rw [hzero, hsigned]
    simp
  have hnearest : nearest negative x = if lowBits (multiple x) (step x) < 0x7FF0000000000000 then
      pattern negative (multiple x) (step x) else infinity negative := by
    rw [nearest, if_neg hpos.ne']
    rfl
  rw [hnearest]
  split_ifs with hlow
  · rw [toRat?_multiple hpos negative hlow, Option.elim_some]
    have hsame : ∀ a b : ℚ, |signed negative a - signed negative b| = |a - b| := by
      intro a b
      cases negative
      · rfl
      · rw [signed, signed, if_pos rfl, if_pos rfl, neg_sub_neg, abs_sub_comm]
    rw [hsame]
    exact (multiple_closest_double hpos hbelow hleast).trans (abs_sub_signed s negative hvalue hx)
  · have hinfinite : (infinity negative).toRat? = none := by cases negative <;> decide +kernel
    rw [hinfinite, Option.elim_none, abs_signed s hvalue, abs_signed negative hx]
    exact lt_of_overflow hpos (not_lt.1 hlow) hbelow hgreatest

/-- **A decimal number is read as a closest double.**  One that is far too great or too small is not
rounded, but is infinite or zero at once. -/
theorem ofDecimal_closest (negative : Bool) (n : Nat) (k : Int) :
    Closest (ofDecimal negative n k) (signed negative (n * 10 ^ k)) := by
  have hq : (0 : ℚ) ≤ n * 10 ^ k := by positivity
  unfold ofDecimal
  split_ifs with hn hgreat hsmall
  · have h := nearest_closest negative (le_refl (0 : ℚ))
    rwa [hn, Nat.cast_zero, zero_mul]
  · intro y v hy
    obtain ⟨s, m, e, rfl, hbelow, -, hgreatest⟩ := exists_of_toRat? hy
    have hinfinite : (infinity negative).toRat? = none := by cases negative <;> decide +kernel
    rw [hinfinite, Option.elim_none, abs_signed s (by positivity), abs_signed negative hq]
    have hm : (m : ℚ) ≤ 2 ^ (53 : Int) := by
      rw [show (2 : ℚ) ^ (53 : Int) = (2 * hiddenBit : Nat) by norm_num [hiddenBit]]
      exact_mod_cast hbelow.le
    calc (m : ℚ) * 2 ^ e ≤ 2 ^ (53 : Int) * 2 ^ e := mul_le_mul_of_nonneg_right hm (by positivity)
      _ = 2 ^ (53 + e) := (zpow_add₀ two_ne_zero _ _).symm
      _ < 2 ^ (k + size n - 1) := zpow_lt_zpow_right₀ one_lt_two (by omega)
      _ ≤ 10 ^ (k + size n - 1) := two_zpow_le (by omega)
      _ ≤ n * 10 ^ k := (decimal_between hn k).1
  · intro y v hy
    obtain ⟨s, m, e, rfl, hbelow, hleast, hgreatest⟩ := exists_of_toRat? hy
    have hzero : (zero negative).toRat? = some 0 := by cases negative <;> decide +kernel
    rw [hzero, Option.elim_some, zero_sub, abs_neg, abs_signed negative hq]
    refine le_trans ?_ (abs_sub_signed s negative (by positivity) hq)
    rcases Nat.eq_zero_or_pos m with rfl | hpos
    · rw [Nat.cast_zero, zero_mul, zero_sub, abs_neg, abs_of_nonneg hq]
    · have hunit : (2 : ℚ) ^ e ≤ m * 2 ^ e :=
        le_mul_of_one_le_left (by positivity) (by exact_mod_cast hpos)
      have hsize : (n : ℚ) * 10 ^ k * 2 ≤ 2 ^ e := by
        calc (n : ℚ) * 10 ^ k * 2 ≤ 10 ^ (k + size n) * 2 :=
              mul_le_mul_of_nonneg_right (decimal_between hn k).2.le zero_le_two
          _ ≤ 2 ^ (k + size n) * 2 := mul_le_mul_of_nonneg_right (ten_zpow_le (by omega)) zero_le_two
          _ = 2 ^ (k + size n + 1) := (zpow_add_one₀ two_ne_zero _).symm
          _ ≤ 2 ^ e := zpow_le_zpow_right₀ one_le_two (by omega)
      rw [abs_of_nonneg (by linarith)]
      linarith
  · exact nearest_closest negative hq

end AddonBuilder.Binary64
