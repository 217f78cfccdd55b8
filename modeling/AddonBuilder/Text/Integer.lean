import AddonBuilder.Text.Blank
import AddonBuilder.Text.Decimal

/-!
# Integers written by people

An integer may stand between white space, may have a sign with white space after it, and may use the
decimal digits of any script.
-/

namespace AddonBuilder.Text

/-- Which characters a written integer may use. -/
inductive DigitSet where
  /-- Digits and white space of ASCII. -/
  | ascii
  /-- Digits of all scripts, and white space outside ASCII too. -/
  | allScripts
deriving DecidableEq, Repr

/-- What counts as white space; the separators `1C`..`1F` do only among the characters of all
scripts. -/
def DigitSet.isBlank : DigitSet → Nat → Bool
  | ascii => isAsciiBlank
  | allScripts => Text.isBlank

/-- The ASCII code that stands for a code point: a blank for white space and an ASCII digit for a
digit of another script. -/
def DigitSet.fold (set : DigitSet) (n : Nat) : Option Nat :=
  if set.isBlank n then some 0x20
  else if n < 0x80 then some n
  else match set with
    | ascii => none
    | allScripts => (decimalValue? n).map (· + 0x30)

theorem isAsciiBlank_eq_false {n : Nat} (h : isBlank n = false) : isAsciiBlank n = false := by
  simp only [isBlank, Bool.or_eq_false_iff] at h
  simp only [h]

theorem DigitSet.fold_eq (set : DigitSet) {n : Nat} (hblank : Text.isBlank n = false)
    (hn : n < 0x80) : set.fold n = some n := by
  have hset : set.isBlank n = false := by
    cases set with
    | ascii => exact isAsciiBlank_eq_false hblank
    | allScripts => exact hblank
  unfold fold
  rw [hset, if_neg Bool.false_ne_true, if_pos hn]

/-- The value of a digit, in any base. -/
def digitValue? (n : Nat) : Option Nat :=
  if 0x30 ≤ n && n ≤ 0x39 then some (n - 0x30)
  else if 0x41 ≤ n && n ≤ 0x5A then some (n - 0x41 + 10)
  else if 0x61 ≤ n && n ≤ 0x7A then some (n - 0x61 + 10)
  else none

/-- A non-empty sequence of digits below `base`. -/
def digitsValue? (base : Nat) (digits : List Nat) : Option Nat :=
  if digits.isEmpty then none
  else digits.foldlM
    (fun n d => (digitValue? d).bind fun v => if v < base then some (n * base + v) else none) 0

/-- Whether there is a minus sign in front, and what comes after a sign and its white space. -/
def splitSign : List Nat → Bool × List Nat
  | 0x2D :: rest => (true, trimStart isAsciiBlank rest)
  | 0x2B :: rest => (false, trimStart isAsciiBlank rest)
  | codes => (false, codes)

theorem splitSign_cons {c : Nat} {rest : List Nat} (hminus : c ≠ 0x2D) (hplus : c ≠ 0x2B) :
    splitSign (c :: rest) = (false, c :: rest) := by
  simp [splitSign, hminus, hplus]

/-- What comes after the mark of base sixteen. -/
def withoutMark (base : Nat) : List Nat → List Nat
  | 0x30 :: x :: rest => if base = 16 && (x = 0x78 || x = 0x58) then rest else 0x30 :: x :: rest
  | codes => codes

theorem withoutMark_eq {base : Nat} (hbase : base ≠ 16) (codes : List Nat) :
    withoutMark base codes = codes := by
  unfold withoutMark
  split
  · rw [if_neg (by simp [hbase])]
  · rfl

def integer? (set : DigitSet) (base : Nat) (codes : List Nat) : Option Int := do
  let (negative, codes) := splitSign (trim isAsciiBlank (← codes.mapM set.fold))
  let n ← digitsValue? base (withoutMark base codes)
  return if negative then -n else n

/-- The integer that a string spells in decimal digits. -/
def integerOfString? (s : String) : Option Int := integer? .allScripts 10 (s.toList.map Char.toNat)

end AddonBuilder.Text
