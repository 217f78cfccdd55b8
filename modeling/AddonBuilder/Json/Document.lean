import AddonBuilder.Json.Value

/-!
# JSON documents

A `Document` is the syntax tree of a JSON text: numbers are kept as written, and an object keeps
every member in order, repetitions included.
-/

namespace AddonBuilder.Json

/-- The words that stand for a value. -/
inductive Constant where
  | null
  | false
  | true
  | notANumber
  | infinity
  | minusInfinity
deriving DecidableEq, Repr

def Constant.word : Constant → Text
  | null => "null"
  | false => "false"
  | true => "true"
  | notANumber => "NaN"
  | infinity => "Infinity"
  | minusInfinity => "-Infinity"

/-- What a text spells, before a reading makes values of it. -/
inductive Document where
  | constant (c : Constant)
  /-- A number without fraction and exponent, as written. -/
  | integer (lexeme : Text)
  /-- A number with a fraction or an exponent, as written. -/
  | real (lexeme : Text)
  | string (t : Text)
  | array (items : List Document)
  | object (members : List (Text × Document))
deriving Inhabited, Repr

/-- A meaning for every kind of node. -/
structure Reading (α : Type) where
  constant : Constant → α
  integer : Text → α
  real : Text → α
  string : Text → α
  array : List α → α
  emptyObject : α
  object : Assoc Text α → α

namespace Document

mutual

/-- The value that a reading makes of a document. -/
def read {α : Type} (r : Reading α) : Document → α
  | constant c => r.constant c
  | integer lexeme => r.integer lexeme
  | real lexeme => r.real lexeme
  | string t => r.string t
  | array items => r.array (readItems r items)
  | object members =>
    if members.isEmpty then r.emptyObject else r.object (Assoc.ofList (readMembers r members))

def readItems {α : Type} (r : Reading α) : List Document → List α
  | [] => []
  | d :: rest => read r d :: readItems r rest

/-- The members of an object with the meanings of their values. -/
def readMembers {α : Type} (r : Reading α) : List (Text × Document) → List (Text × α)
  | [] => []
  | (k, d) :: rest => (k, read r d) :: readMembers r rest

end

end Document

namespace Lexeme

/-- The number written by decimal digits. -/
def natural (digits : Text) : Nat := digits.foldl (fun n d => n * 10 + (d.val - 0x30)) 0

/-- The magnitude of a signed lexeme and whether it is negative. -/
def sign (t : Text) : Bool × Text :=
  match t with
  | c :: rest => if c = 0x2D then (true, rest) else if c = 0x2B then (false, rest) else (false, t)
  | [] => (false, [])

def toInt (t : Text) : Int :=
  let (negative, digits) := sign t
  if negative then -(natural digits : Int) else natural digits

def isDigit (c : CodePoint) : Bool := 0x30 ≤ c.val && c.val ≤ 0x39

/-- The number nearest to the decimal that a lexeme denotes. -/
def toBinary64 (t : Text) : Binary64 :=
  let (negative, magnitude) := sign t
  let whole := magnitude.takeWhile isDigit
  let rest := magnitude.dropWhile isDigit
  let (fraction, rest) := match rest with
    | c :: after => if c = 0x2E then (after.takeWhile isDigit, after.dropWhile isDigit) else ([], rest)
    | [] => ([], [])
  let exponent := match rest with
    | _ :: after => toInt after
    | [] => 0
  Binary64.ofDecimal negative (natural (whole ++ fraction)) (exponent - fraction.length)

end Lexeme

/-- The value of a constant. -/
def Constant.value : Constant → Value
  | null => .null
  | false => .bool .false
  | true => .bool .true
  | notANumber => .float Binary64.nan
  | infinity => .float (Binary64.infinity .false)
  | minusInfinity => .float (Binary64.infinity .true)

/-- The reading that makes values. -/
def Value.reading : Reading Value where
  constant := Constant.value
  integer lexeme := .int (Lexeme.toInt lexeme)
  real lexeme := .float (Lexeme.toBinary64 lexeme)
  string := .text
  array := .array
  emptyObject := .object []
  object := .object

/-- The value of a document. -/
def Document.value (d : Document) : Value := d.read Value.reading

end AddonBuilder.Json
