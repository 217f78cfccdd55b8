import AddonBuilder.Number.Binary64
import AddonBuilder.Text.Basic

/-!
# The shortest decimal of a number

`Binary64.shortest` gives the decimal with the fewest digits that reads back as the same pattern,
and among those the one nearest to the exact value.
-/

namespace AddonBuilder

open String

/-- The decimal number `digits * 10 ^ exponent`. -/
structure Decimal where
  digits : Nat
  exponent : Int
deriving DecidableEq, Repr, Inhabited

namespace Binary64

/-- The two decimals around a value with their last digit at `place`, the nearer one first. -/
def neighbours (value : Rat) (place : Int) : List Decimal :=
  let scaled := value / 10 ^ place
  let below := scaled.floor.toNat
  if round scaled = below then [⟨below, place⟩, ⟨below + 1, place⟩]
  else [⟨below + 1, place⟩, ⟨below, place⟩]

/-- All digits of `mantissa * 2 ^ exponent`. -/
def allDigits (mantissa : Nat) : Int → Decimal
  | .ofNat e => ⟨mantissa * Nat.pow 2 e, 0⟩
  | .negSucc e => ⟨mantissa * Nat.pow 5 (e + 1), .negSucc e⟩

/-- The shortest decimal of a number other than zero.  A power of ten above it has its digit one place
before the number, and seventeen digits are always enough. -/
def shortest (x : Binary64) (negative : Bool) (mantissa : Nat) (exponent : Int) : Decimal :=
  let value : Rat := mantissa * 2 ^ exponent
  let start := leadingPlace value + 1
  let candidates := (List.range 18).flatMap fun (k : Nat) => neighbours value (start - k)
  (candidates.find? fun d => ofDecimal negative d.digits d.exponent = x).getD
    (allDigits mantissa exponent)

/-- How a language writes its doubles. -/
structure Layout where
  /-- The least and greatest place of the first digit in positional notation. -/
  leastPlace : Int
  greatestPlace : Int
  /-- The least number of digits of an exponent. -/
  exponentWidth : Nat
  notANumber : String
  infinite : String

/-- Digits with a decimal point, and a zero after it if nothing else stands there. -/
def positional (d : Decimal) : String :=
  let digits := toString d.digits
  match d.exponent with
  | .ofNat e => digits ++ ofList (List.replicate e '0') ++ ".0"
  | .negSucc e =>
    let after := e + 1
    if after < digits.length then
      ofList (digits.toList.take (digits.length - after)) ++ "." ++
        ofList (digits.toList.drop (digits.length - after))
    else "0." ++ ofList (List.replicate (after - digits.length) '0') ++ digits

/-- Digits with a point after the first, and an exponent. -/
def scientific (exponentWidth : Nat) (d : Decimal) : String :=
  let digits := toString d.digits
  let place := d.exponent + digits.length - 1
  let size := toString place.natAbs
  let head := ofList (digits.toList.take 1)
  let tail := ofList (digits.toList.drop 1)
  head ++ (if tail.isEmpty then "" else "." ++ tail) ++ "e" ++ (if place < 0 then "-" else "+") ++
    ofList (List.replicate (exponentWidth - size.length) '0') ++ size

def render (layout : Layout) (x : Binary64) : String :=
  match x.view with
  | .nan => layout.notANumber
  | .infinite negative => (if negative then "-" else "") ++ layout.infinite
  | .finite negative mantissa exponent =>
    let d := if mantissa = 0 then ⟨0, 0⟩ else shortest x negative mantissa exponent
    let place := d.exponent + (toString d.digits).length - 1
    (if negative then "-" else "") ++
      if layout.leastPlace ≤ place && place ≤ layout.greatestPlace then positional d
      else scientific layout.exponentWidth d

/-- Positional from `0.0001` up to below `10 ^ 16`, exponents of two digits or more. -/
def plainLayout : Layout := ⟨-4, 15, 2, "nan", "inf"⟩

instance : ToString Binary64 := ⟨render plainLayout⟩

end Binary64

end AddonBuilder
