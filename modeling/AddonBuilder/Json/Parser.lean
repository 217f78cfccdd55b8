import AddonBuilder.Json.Document
import AddonBuilder.Json.StringScan

/-!
# Reading JSON texts

The parser works on a `Cursor` and yields the syntax tree of the longest token at the cursor and the
place after it.
-/

namespace AddonBuilder.Json

def Cursor.skipBlanks (c : Cursor) : Cursor :=
  c.advance (c.rest.takeWhile fun u => Text.isAsciiBlank u.val).length

namespace Parser

/-- The constants in the order in which they are tried. -/
def constants : List Constant := [.minusInfinity, .infinity, .notANumber, .true, .false, .null]

/-- The constant that a text starts with. -/
def constant? (t : Text) : Option Constant := constants.find? fun c => c.word.isPrefixOf t

def digitCount (t : Text) : Nat := (t.takeWhile Lexeme.isDigit).length

/-- The length of a fraction at the start of a text: a point and at least one digit. -/
def fractionLength (t : Text) : Nat :=
  match t with
  | c :: rest => if c = 0x2E && digitCount rest ≠ 0 then digitCount rest + 1 else 0
  | [] => 0

/-- The length of an exponent at the start of a text: `e` or `E`, perhaps a sign, and at least one
digit. -/
def exponentLength (t : Text) : Nat :=
  match t with
  | e :: rest =>
    if e = 0x65 || e = 0x45 then
      let signLength := match rest with
        | s :: _ => if s = 0x2B || s = 0x2D then 1 else 0
        | [] => 0
      let n := digitCount (rest.drop signLength)
      if n ≠ 0 then 1 + signLength + n else 0
    else 0
  | [] => 0

/-- The length of an integer at the start of a text: perhaps a minus sign, then a zero or digits
that start with another one. -/
def integerLength? (t : Text) : Option Nat :=
  let signLength := match t with
    | c :: _ => if c = 0x2D then 1 else 0
    | [] => 0
  match t.drop signLength with
  | c :: rest =>
    if c = 0x30 then some (signLength + 1)
    else if Lexeme.isDigit c then some (signLength + 1 + digitCount rest)
    else none
  | [] => none

def number? (t : Text) : Option (Document × Nat) :=
  (integerLength? t).map fun n =>
    let f := fractionLength (t.drop n)
    let e := exponentLength (t.drop (n + f))
    if f + e = 0 then (.integer (t.take n), n)
    else (.real (t.take (n + f + e)), n + f + e)

/-- What `expected` opens, at the cursor. -/
def starts (c : Cursor) (expected : CodePoint) : Bool := c.rest.head? = some expected

mutual

/-- The document at the cursor, or `none` if none starts there.  `fuel` bounds the nesting. -/
def value (mode : Mode) : Nat → Cursor → Except ParseError (Option (Document × Cursor))
  | 0, _ => .ok none
  | fuel + 1, c =>
    if starts c 0x7B then do
      let c := (c.advance 1).skipBlanks
      if starts c 0x7D then return some (.object [], c.advance 1)
      else if starts c 0x22 then
        let (members, c) ← members mode fuel (c.advance 1)
        return some (.object members, c)
      else .error (.wrong .propertyName c.pos)
    else if starts c 0x5B then do
      let c := (c.advance 1).skipBlanks
      if starts c 0x5D then return some (.array [], c.advance 1)
      else
        let (items, c) ← items mode fuel c
        return some (.array items, c)
    else if starts c 0x22 then do
      let (t, c) ← scanString mode (c.advance 1)
      return some (.string t, c)
    else match constant? c.rest with
      | some k => .ok (some (.constant k, c.advance k.word.length))
      | none => match number? c.rest with
        | some (d, n) => .ok (some (d, c.advance n))
        | none => .ok none

/-- The members of an object from after the opening quote of a name up to the closing brace. -/
def members (mode : Mode) : Nat → Cursor → Except ParseError (List (Text × Document) × Cursor)
  | 0, c => .error (.wrong .value c.pos)
  | fuel + 1, c => do
    let (key, c) ← scanString mode c
    let c := c.skipBlanks
    if !starts c 0x3A then .error (.wrong .colon c.pos)
    else
      let c := (c.advance 1).skipBlanks
      match ← value mode fuel c with
      | none => .error (.wrong .value c.pos)
      | some (d, c) =>
        let c := c.skipBlanks
        if starts c 0x7D then return ([(key, d)], c.advance 1)
        else if !starts c 0x2C then .error (.wrong .comma c.pos)
        else
          let c := (c.advance 1).skipBlanks
          if !starts c 0x22 then .error (.wrong .propertyName c.pos)
          else
            let (rest, c) ← members mode fuel (c.advance 1)
            return ((key, d) :: rest, c)

/-- The items of an array from the first one up to the closing bracket.  The mode
says where a missing comma is reported. -/
def items (mode : Mode) : Nat → Cursor → Except ParseError (List Document × Cursor)
  | 0, c => .error (.wrong .value c.pos)
  | fuel + 1, c => do
    match ← value mode fuel c with
    | none => .error (.wrong .value c.pos)
    | some (d, c) =>
      let c := c.skipBlanks
      if starts c 0x5D then return ([d], c.advance 1)
      else if !starts c 0x2C then .error (.wrong .comma (c.pos + mode.missedComma))
      else
        let (rest, c) ← items mode fuel (c.advance 1).skipBlanks
        return (d :: rest, c)

end

/-- The document at a cursor.  Between two calls of `value` the parser takes at least one unit, and
between them stands at most one call of `members` or `items`, so twice the number of units left
bounds the nesting. -/
def valueAt (mode : Mode) (c : Cursor) : Except ParseError (Option (Document × Cursor)) :=
  value mode (2 * c.rest.length + 1) c

end Parser

/-- The cursor at an index; an index outside the text counts as the nearest end. -/
def cursorAt (source : Text) (index : Int) : Cursor :=
  let n := min index.toNat source.length
  ⟨n, source.drop n⟩

/-- The string whose opening quote is taken to stand just before an index.  Outside the text the
scan starts at the nearest end, and an error still names the place of the quote. -/
def scanStringAt (mode : Mode) (source : Text) (index : Int) : Except ParseError (Text × Cursor) :=
  let c := cursorAt source index
  scanFrom mode (index - 1) [] [] c.pos c.rest

/-- The document that starts at an index, and the index after it. -/
def parseAt (mode : Mode) (source : Text) (index : Int) : Except ParseError (Document × Nat) := do
  match ← Parser.valueAt mode (cursorAt source index) with
  | some (d, c) => return (d, c.pos)
  | none => .error .noDocument

/-- One document with blanks around it, and nothing else. -/
def parseSource (mode : Mode) (source : Text) : Except ParseError Document := do
  let start := (cursorAt source 0).skipBlanks.pos
  let (d, stop) ← parseAt mode source start
  let stop := (cursorAt source stop).skipBlanks.pos
  if stop = source.length then return d else .error (.extraData stop source.length)

/-- Bytes as a text of their codes. -/
def bytesSource (bytes : Bytes) : Text := bytes.map CodePoint.ofByte

/-- Reads a text. -/
def decode (t : Text) : Except ParseError Value := (parseSource {} t).map Document.value

/-- Reads bytes, whose strings are decoded as UTF-8 one by one. -/
def decodeUtf8 (bytes : Bytes) : Except ParseError Value :=
  (parseSource { alphabet := .bytes .utf8 } (bytesSource bytes)).map Document.value

end AddonBuilder.Json
