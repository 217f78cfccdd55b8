import AddonBuilder.Json.Numerals
import AddonBuilder.Json.ParseError
import AddonBuilder.Text.Codec

/-!
# Strings of a JSON text

`scanString` reads a string from the code point after its opening quote.
-/

namespace AddonBuilder.Json

/-- What the units of a source are. -/
inductive Alphabet where
  | characters
  | bytes (codec : Codec)
deriving DecidableEq, Repr

/-- The text of a run of units without escapes. -/
def Alphabet.chunk? : Alphabet → Text → Option Text
  | characters, units => some units
  | bytes codec, units => codec.decode? (units.map fun u => u.val.toUInt8)

/-- How the escapes of a source are read. -/
def Alphabet.numerals : Alphabet → Numerals
  | characters => .integers .allScripts
  | bytes _ => .integers .ascii

/-- What a parser takes the units of its text for, and what it refuses. -/
structure Mode where
  alphabet : Alphabet := .characters
  numerals : Numerals := alphabet.numerals
  /-- Whether control characters are refused inside strings. -/
  strict : Bool := true
  /-- How many units after its place a comma that is missing in an array is reported. -/
  missedComma : Nat := 1

/-- A place in a source: how many units come before it, and the units from it on. -/
structure Cursor where
  pos : Nat
  rest : Text
deriving DecidableEq, Repr

/-- Goes on by some units. -/
def Cursor.advance (c : Cursor) (n : Nat) : Cursor := ⟨c.pos + n, c.rest.drop n⟩

def simpleEscape? (c : CodePoint) : Option CodePoint :=
  if c = 0x22 || c = 0x5C || c = 0x2F then some c
  else if c = 0x62 then some 0x08
  else if c = 0x66 then some 0x0C
  else if c = 0x6E then some 0x0A
  else if c = 0x72 then some 0x0D
  else if c = 0x74 then some 0x09
  else none

/-- Bitwise disjunction of a natural number and an integer in two's complement. -/
def bitOr (x : Nat) (y : Int) : Int :=
  match y with
  | .ofNat n => (x ||| n : Nat)
  | .negSucc n => .negSucc (n - (n &&& x))

def pointOfInt? (n : Int) : Option CodePoint :=
  if n < 0 then none else CodePoint.ofNat? n.toNat

/-- The number of the code point that two escapes name together. -/
def joinSurrogates (high : Nat) (low : Int) : Int :=
  0x10000 + bitOr ((high - 0xD800) * 1024) (low - 0xDC00)

/-- A run of units, collected backwards, put in front of what was read before it. -/
def flush (alphabet : Alphabet) (run out : Text) : Except ParseError Text :=
  match alphabet.chunk? run.reverse with
  | some t => .ok (t.reverse ++ out)
  | none => .error .undecodable

/-- Scans from `pos`; `run` and `out` hold, backwards, the units since the last escape and the
text before them.  `start` is the position of the opening quote. -/
def scanFrom (mode : Mode) (start : Int) (run out : Text) (pos : Nat) :
    Text → Except ParseError (Text × Cursor)
  | [] => .error (.wrong .unterminatedString start)
  | c :: rest =>
    if c = 0x22 then do
      let out ← flush mode.alphabet run out
      return (out.reverse, ⟨pos + 1, rest⟩)
    else if c = 0x5C then do
      let out ← flush mode.alphabet run out
      match rest with
      | [] => .error (.wrong .unterminatedString start)
      | e :: rest =>
        if e = 0x75 then
          match rest with
          | a :: b :: c :: d :: rest =>
            match mode.numerals.value? a b c d with
            | none => .error (.wrong .unicodeEscape (pos + 1))
            | some n =>
              if 0xD800 ≤ n && n ≤ 0xDBFF then
                match rest with
                | s :: u :: a :: b :: c :: d :: rest =>
                  if s = 0x5C && u = 0x75 then
                    match (mode.numerals.value? a b c d).bind
                        fun low => pointOfInt? (joinSurrogates n.toNat low) with
                    | none => .error (.wrong .surrogatePair (pos + 1))
                    | some p => scanFrom mode start [] (p :: out) (pos + 12) rest
                  else .error (.wrong .surrogatePair (pos + 1))
                | _ => .error (.wrong .surrogatePair (pos + 1))
              else
                match pointOfInt? n with
                | none => .error (.wrong .unicodeEscape (pos + 1))
                | some p => scanFrom mode start [] (p :: out) (pos + 6) rest
          | _ => .error (.wrong .unicodeEscape (pos + 1))
        else
          match simpleEscape? e with
          | none => .error (.wrong (.escape e) (pos + 1))
          | some p => scanFrom mode start [] (p :: out) (pos + 2) rest
    else if c.val < 0x20 then do
      let out ← flush mode.alphabet run out
      if mode.strict then .error (.wrong .controlCharacter (pos + 1))
      else scanFrom mode start [] (c :: out) (pos + 1) rest
    else scanFrom mode start (c :: run) out (pos + 1) rest

/-- The string whose opening quote stands just before the cursor, and the place after its closing
quote. -/
def scanString (mode : Mode) (cursor : Cursor) : Except ParseError (Text × Cursor) :=
  scanFrom mode (cursor.pos - 1 : Int) [] [] cursor.pos cursor.rest

end AddonBuilder.Json
