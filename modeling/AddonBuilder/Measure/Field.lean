import AddonBuilder.Measure.Report
import AddonBuilder.Number.Arithmetic
import AddonBuilder.Text.Integer

/-!
# Fields of recorded data

Measuring tools exchange objects whose fields may be missing, null or of the wrong kind.
-/

namespace AddonBuilder.Measure.Field

open Json Text Binary64


def kind : Value → String
  | .null => "NoneType"
  | .bool _ => "bool"
  | .int _ => "int"
  | .float _ => "float"
  | .text _ => "str"
  | .array _ => "list"
  | .object _ => "dict"

def table : Value → Except Failure Members
  | .object m => .ok m
  | v => .error ⟨"AttributeError", quoted (kind v) ++ " object has no attribute 'get'"⟩

/-- The members of an object; whatever is empty or null counts as an object without members. -/
def tableOrEmpty (v : Option Value) : Except Failure Members :=
  match v with
  | none => .ok []
  | some v => if v.isGiven then table v else .ok []

def floatOfText? (t : Text) : Option Binary64 :=
  let s := (trimString t.display).toList.map Char.toLower
  let (negative, rest) := match s with
    | '-' :: rest => (true, rest)
    | '+' :: rest => (false, rest)
    | _ => (false, s)
  if rest = "nan".toList then some nan
  else if rest = "inf".toList || rest = "infinity".toList then some (infinity negative)
  else
    let digits (l : List Char) := l.takeWhile Char.isDigit
    let whole := digits rest
    let rest := rest.drop whole.length
    let (fraction, rest) := match rest with
      | '.' :: more => (digits more, more.drop (digits more).length)
      | _ => ([], rest)
    let exponent? : Option Int := match rest with
      | [] => some 0
      | 'e' :: more => integerOfString? (String.ofList more)
      | _ => none
    let mantissa := String.ofList (whole ++ fraction)
    if mantissa.isEmpty then none
    else do
      let n ← integerOfString? mantissa
      return ofDecimal negative n.toNat ((← exponent?) - fraction.length)

def toFloat : Value → Except Failure Binary64
  | .int n => .ok (ofInt n)
  | .float x => .ok x
  | .bool b => .ok (ofInt (if b then 1 else 0))
  | .text t =>
    match floatOfText? t with
    | some x => .ok x
    | none => .error ⟨"ValueError", "could not convert string to float: " ++ quoted t⟩
  | v => .error ⟨"TypeError",
      "float() argument must be a string or a real number, not " ++ quoted (kind v)⟩

/-- A value as a whole number; what comes after the point is dropped. -/
def toInt : Value → Except Failure Int
  | .int n => .ok n
  | .bool b => .ok (if b then 1 else 0)
  | .float x =>
    match x.toRat? with
    | some q => .ok (q.num.tdiv q.den)
    | none =>
      if x.isNaN then .error ⟨"ValueError", "cannot convert float NaN to integer"⟩
      else .error ⟨"OverflowError", "cannot convert float infinity to integer"⟩
  | .text t =>
    match integerOfString? t.display with
    | some n => .ok n
    | none => .error ⟨"ValueError", "invalid literal for int() with base 10: " ++ quoted t⟩
  | v => .error ⟨"TypeError",
      "int() argument must be a string, a bytes-like object or a real number, not " ++ quoted (kind v)⟩

end AddonBuilder.Measure.Field
