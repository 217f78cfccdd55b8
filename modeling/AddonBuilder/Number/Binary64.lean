/-!
# Double-precision numbers

A `Binary64` is the bit pattern of a double-precision number.
-/

namespace AddonBuilder

/-- A double, by its bits. -/
structure Binary64 where
  bits : UInt64
deriving DecidableEq, Inhabited, Repr

namespace Binary64

/-- What a bit pattern denotes. -/
inductive View where
  | nan
  | infinite (negative : Bool)
  /-- The number `mantissa * 2 ^ exponent`, negated if `negative`. -/
  | finite (negative : Bool) (mantissa : Nat) (exponent : Int)
deriving DecidableEq, Repr

def signBit : Nat := 0x8000000000000000

/-- The leading bit of a mantissa, `2 ^ 52`, which is not part of the pattern. -/
def hiddenBit : Nat := 0x10000000000000

/-- What the bits say. -/
def view (x : Binary64) : View :=
  let n := x.bits.toNat
  let negative := signBit ≤ n
  let biased : Nat := n / hiddenBit % 2048
  let fraction : Nat := n % hiddenBit
  if biased = 2047 then
    if fraction = 0 then .infinite negative else .nan
  else if biased = 0 then .finite negative fraction (-1074)
  else .finite negative (hiddenBit + fraction) ((biased : Int) - 1075)

/-- The pattern with a sign and the low 63 bits. -/
def ofParts (negative : Bool) (low : Nat) : Binary64 :=
  ⟨((if negative then signBit else 0) + low).toUInt64⟩

/-- The number that is none. -/
def nan : Binary64 := ⟨0x7FF8000000000000⟩

/-- Infinity with a sign. -/
def infinity (negative : Bool) : Binary64 := ofParts negative 0x7FF0000000000000

/-- Zero with a sign. -/
def zero (negative : Bool) : Binary64 := ofParts negative 0

/-- Whether a double is no number. -/
def isNaN (x : Binary64) : Bool := x.view == .nan

def isNegative (x : Binary64) : Bool := signBit ≤ x.bits.toNat

def isZero (x : Binary64) : Bool :=
  match x.view with
  | .finite _ mantissa _ => mantissa == 0
  | _ => false

/-- The natural number nearest to a number that is not negative, a tie to the even one. -/
def round (x : Rat) : Nat :=
  let below := x.floor.toNat
  let middle : Rat := below + 1 / 2
  if x < middle || (x = middle && below % 2 = 0) then below else below + 1

/-- The exponent at which a positive number has a mantissa of 53 bits. -/
def fitted (x : Rat) : Int :=
  let guess : Int := (x.num.natAbs.log2 : Int) - x.den.log2 - 52
  if x < hiddenBit * 2 ^ guess then guess - 1 else guess

/-- The low 63 bits of the pattern of `mantissa * 2 ^ exponent`. -/
def lowBits (mantissa : Nat) (exponent : Int) : Nat :=
  if mantissa < hiddenBit then mantissa
  else ((exponent + 1074).toNat + 1) * hiddenBit + (mantissa - hiddenBit)

/-- Rounds to the nearest double, and halfway to the even one. -/
def nearest (negative : Bool) (x : Rat) : Binary64 :=
  if x = 0 then zero negative
  else
    let exponent := max (fitted x) (-1074)
    let low := lowBits (round (x / 2 ^ exponent)) exponent
    if low < 0x7FF0000000000000 then ofParts negative low else infinity negative

/-- The number of decimal digits. -/
def size (n : Nat) : Int := (Nat.toDigits 10 n).length

/-- The place of the first digit of a positive number: the greatest `k` with `10 ^ k ≤ x`. -/
def leadingPlace (x : Rat) : Int :=
  let place := size x.num.natAbs - size x.den
  if x < 10 ^ place then place - 1 else place

/-- The pattern nearest to `digits * 10 ^ exponent`.  Exponents far outside the range of the format
give infinity or zero at once. -/
def ofDecimal (negative : Bool) (digits : Nat) (exponent : Int) : Binary64 :=
  if digits = 0 then zero negative
  else if 1200 < exponent + size digits then infinity negative
  else if exponent + size digits < -1200 then zero negative
  else nearest negative (digits * 10 ^ exponent)

/-- The nearest double to an integer. -/
def ofInt (n : Int) : Binary64 := nearest (n < 0) n.natAbs

/-- The exact value of a finite number. -/
def toRat? (x : Binary64) : Option Rat :=
  match x.view with
  | .finite negative mantissa exponent =>
    some ((if negative then -1 else 1) * mantissa * 2 ^ exponent)
  | _ => none

/-- Exact comparison of two finite numbers; `none` when either is not a number. -/
def compare? (x y : Binary64) : Option Ordering :=
  match x.view, y.view with
  | .nan, _ | _, .nan => none
  | .infinite a, .infinite b => some (if a = b then .eq else if a then .lt else .gt)
  | .infinite a, _ => some (if a then .lt else .gt)
  | _, .infinite b => some (if b then .gt else .lt)
  | .finite a m e, .finite b n f =>
    let low := min e f
    let left : Int := (if a then -1 else 1) * (m <<< (e - low).toNat : Nat)
    let right : Int := (if b then -1 else 1) * (n <<< (f - low).toNat : Nat)
    some (compare left right)

end Binary64

end AddonBuilder
