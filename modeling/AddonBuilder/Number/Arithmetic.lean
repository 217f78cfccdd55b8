import AddonBuilder.Number.Binary64

/-!
# Arithmetic of doubles

Sums, differences, products and quotients are the nearest doubles to the exact results, a tie going
to the even neighbour.
-/

namespace AddonBuilder.Binary64

def neg (x : Binary64) : Binary64 := ⟨x.bits ^^^ 0x8000000000000000⟩

def add (x y : Binary64) : Binary64 :=
  match x.view, y.view with
  | .nan, _ | _, .nan => nan
  | .infinite a, .infinite b => if a = b then x else nan
  | .infinite _, _ => x
  | _, .infinite _ => y
  | _, _ =>
    match x.toRat?, y.toRat? with
    | some a, some b =>
      let sum := a + b
      nearest (if sum = 0 then x.isNegative && y.isNegative else sum < 0) sum.abs
    | _, _ => nan

def sub (x y : Binary64) : Binary64 := if y.isNaN then nan else add x y.neg

def mul (x y : Binary64) : Binary64 :=
  let negative := x.isNegative != y.isNegative
  match x.view, y.view with
  | .nan, _ | _, .nan => nan
  | .infinite _, _ => if y.isZero then nan else infinity negative
  | _, .infinite _ => if x.isZero then nan else infinity negative
  | _, _ =>
    match x.toRat?, y.toRat? with
    | some a, some b => nearest negative (a * b).abs
    | _, _ => nan

/-- The quotient of two numbers; there is none by zero. -/
def div? (x y : Binary64) : Option Binary64 :=
  if y.isZero then none
  else
    let negative := x.isNegative != y.isNegative
    match x.view, y.view with
    | .nan, _ | _, .nan => some nan
    | .infinite _, .infinite _ => some nan
    | .infinite _, _ => some (infinity negative)
    | _, .infinite _ => some (zero negative)
    | _, _ =>
      match x.toRat?, y.toRat? with
      | some a, some b => some (nearest negative (a / b).abs)
      | _, _ => some nan

/-- Whether a double is less than another. -/
def lt (x y : Binary64) : Bool := compare? x y == some .lt

def le (x y : Binary64) : Bool := lt x y || compare? x y == some .eq

/-- Decimal digits with at least a given count, zeros in front. -/
def paddedDigits (count n : Nat) : List Char :=
  let digits := Nat.toDigits 10 n
  List.replicate (count - digits.length) '0' ++ digits

def fixed (decimals : Nat) (x : Binary64) : String :=
  match x.view with
  | .nan => "nan"
  | .infinite negative => if negative then "-inf" else "inf"
  | _ =>
    match x.toRat? with
    | none => "nan"
    | some q =>
      let digits := paddedDigits (decimals + 1) (round (q.abs * 10 ^ decimals))
      let whole := digits.take (digits.length - decimals)
      let rest := digits.drop (digits.length - decimals)
      String.ofList ((if x.isNegative then ['-'] else []) ++ whole ++
        (if decimals = 0 then [] else '.' :: rest))

def roundTo (decimals : Nat) (x : Binary64) : Binary64 :=
  match x.toRat? with
  | some q => nearest x.isNegative (round (q.abs * 10 ^ decimals) / 10 ^ decimals)
  | none => x

/-- The number nearest to `x` rounded to a count of significant digits, a tie going to the even digit.
Zero and numbers that are not finite stay as they are. -/
def significant (digits : Nat) (x : Binary64) : Binary64 :=
  match x.toRat? with
  | some q =>
    if q = 0 then x
    else
      let shift : Int := digits - 1 - leadingPlace q.abs
      ofDecimal x.isNegative (round (q.abs * 10 ^ shift)) (-shift)
  | none => x

end AddonBuilder.Binary64
