import AddonBuilder.Text.Integer

/-!
# The numbers of escapes

The four characters after `\u` are read as a written integer, so that a sign, white space or a mark
of the base may stand among them.
-/

namespace AddonBuilder.Json

open Text List

/-- The value of a hexadecimal digit. -/
def hexValue? (u : CodePoint) : Option Nat :=
  if 0x30 ≤ u.val ∧ u.val ≤ 0x39 then some (u.val - 0x30)
  else if 0x41 ≤ u.val ∧ u.val ≤ 0x46 then some (u.val - 0x41 + 10)
  else if 0x61 ≤ u.val ∧ u.val ≤ 0x66 then some (u.val - 0x61 + 10)
  else none

/-- The value of four hexadecimal digits. -/
def hexQuad? (a b c d : CodePoint) : Option Nat := do
  return (((← hexValue? a) * 16 + (← hexValue? b)) * 16 + (← hexValue? c)) * 16 + (← hexValue? d)

/-- How the four characters of an escape are read as a number. -/
structure Numerals where
  value? : CodePoint → CodePoint → CodePoint → CodePoint → Option Int
  hex : ∀ {a b c d : CodePoint} {n : Nat}, hexQuad? a b c d = some n → value? a b c d = some (n : Int)

/-- The integer that four characters are. -/
def quad? (set : DigitSet) (a b c d : CodePoint) : Option Int :=
  integer? set 16 [a.val, b.val, c.val, d.val]

theorem hexValue?_spec {u : CodePoint} {d : Nat} (h : hexValue? u = some d) :
    d < 16 ∧ u.val < 0x7F ∧ isBlank u.val = false ∧ u.val ≠ 0x2D ∧ u.val ≠ 0x2B ∧
      u.val ≠ 0x78 ∧ u.val ≠ 0x58 ∧ digitValue? u.val = some d := by
  have hcases : 0x30 ≤ u.val ∧ u.val ≤ 0x39 ∧ d = u.val - 0x30 ∨
      0x41 ≤ u.val ∧ u.val ≤ 0x46 ∧ d = u.val - 0x41 + 10 ∨
      0x61 ≤ u.val ∧ u.val ≤ 0x66 ∧ d = u.val - 0x61 + 10 := by
    unfold hexValue? at h
    grind
  have hblank : isBlank u.val = false := by
    simp [isBlank, isAsciiBlank]
    omega
  have hdigit : digitValue? u.val = some d := by
    unfold digitValue?
    grind
  refine ⟨?_, ?_, hblank, ?_, ?_, ?_, ?_, hdigit⟩ <;> omega

theorem fold_of_hex {u : CodePoint} {d : Nat} (set : DigitSet) (h : hexValue? u = some d) :
    set.fold u.val = some u.val := by
  obtain ⟨-, hlow, hblank, -⟩ := hexValue?_spec h
  exact set.fold_eq hblank (by omega)

/-- **Four hexadecimal digits are an integer of their value.** -/
theorem quad?_hex (set : DigitSet) {u₁ u₂ u₃ u₄ : CodePoint} {n : Nat}
    (h : hexQuad? u₁ u₂ u₃ u₄ = some n) : quad? set u₁ u₂ u₃ u₄ = some (n : Int) := by
  simp only [hexQuad?, Option.bind_eq_bind, Option.bind_eq_some_iff, Option.pure_def,
    Option.some.injEq] at h
  obtain ⟨a, ha, b, hb, c, hc, d, hd, rfl⟩ := h
  obtain ⟨ha₀, -, ha₂, ha₃, ha₄, -, -, ha₅⟩ := hexValue?_spec ha
  obtain ⟨hb₀, -, -, -, -, hb₃, hb₄, hb₅⟩ := hexValue?_spec hb
  obtain ⟨hc₀, -, -, -, -, -, -, hc₅⟩ := hexValue?_spec hc
  obtain ⟨hd₀, -, hd₂, -, -, -, -, hd₅⟩ := hexValue?_spec hd
  have hfold : [u₁.val, u₂.val, u₃.val, u₄.val].mapM set.fold =
      some [u₁.val, u₂.val, u₃.val, u₄.val] := by
    simp [fold_of_hex set ha, fold_of_hex set hb, fold_of_hex set hc, fold_of_hex set hd]
  have htrim : trim isAsciiBlank [u₁.val, u₂.val, u₃.val, u₄.val] =
      [u₁.val, u₂.val, u₃.val, u₄.val] := by
    simp [trim, trimStart, trimEnd, isAsciiBlank_eq_false ha₂, isAsciiBlank_eq_false hd₂]
  have hmark : withoutMark 16 [u₁.val, u₂.val, u₃.val, u₄.val] =
      [u₁.val, u₂.val, u₃.val, u₄.val] := by
    unfold withoutMark
    split
    · rename_i x rest hcodes
      obtain rfl : u₂.val = x := (cons.inj (cons.inj hcodes).2).1
      rw [if_neg (by simp [hb₃, hb₄]), ← hcodes]
    · rfl
  have hvalue : digitsValue? 16 [u₁.val, u₂.val, u₃.val, u₄.val] =
      some (((a * 16 + b) * 16 + c) * 16 + d) := by
    simp [digitsValue?, ha₅, hb₅, hc₅, hd₅, ha₀, hb₀, hc₀, hd₀]
  rw [quad?, integer?, hfold, Option.bind_eq_bind, Option.bind_some, htrim, splitSign_cons ha₃ ha₄]
  dsimp only
  rw [hmark, hvalue]
  rfl

/-- Escapes that are read as integers. -/
def Numerals.integers (set : DigitSet) : Numerals := ⟨quad? set, quad?_hex set⟩

end AddonBuilder.Json
