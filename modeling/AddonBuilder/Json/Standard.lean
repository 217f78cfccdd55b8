import AddonBuilder.Json.Parser

/-!
# Messages in the common wording

Tools that exchange JSON with each other report errors in a wording of their own: columns count from
one on every line, a missing comma is reported where it is missed, and a text without a document
misses a value at its start.
-/

namespace AddonBuilder.Json.Standard

/-- The mode of the standard parser. -/
def mode : Mode where
  missedComma := 0

/-- What is wrong, without the place, and how far before the reported position the place is. -/
def phrase : Reason → Text × Nat
  | .unterminatedString => ("Unterminated string starting at", 0)
  | .controlCharacter => ("Invalid control character at", 1)
  | .escape _ => ("Invalid \\escape", 1)
  | .unicodeEscape | .surrogatePair => ("Invalid \\uXXXX escape", 0)
  | .propertyName => ("Expecting property name enclosed in double quotes", 0)
  | .colon => ("Expecting ':' delimiter", 0)
  | .comma => ("Expecting ',' delimiter", 0)
  | .value => ("Expecting value", 0)

def placedAt (what source : Text) (pos : Nat) : Text :=
  let before := source.take pos
  let column := match lastLineFeed? before with
    | none => pos + 1
    | some i => pos - i
  what ++ ": line " ++ Text.ofNat (before.count 0x0A + 1) ++ " column " ++ Text.ofNat column ++
    " (char " ++ Text.ofNat pos ++ ")"

def message (source : Text) : ParseError → Text
  | .wrong reason pos =>
    let (what, back) := phrase reason
    placedAt what source (pos - back).toNat
  | .noDocument => placedAt "Expecting value" source (cursorAt source 0).skipBlanks.pos
  | .extraData start _ => placedAt "Extra data" source start
  | .undecodable => placedAt "Expecting value" source 0

/-- The value of a JSON text, or the message that says why it is none. -/
def decode (t : Text) : Except Text Value :=
  ((parseSource mode t).map Document.value).mapError (message t)

end AddonBuilder.Json.Standard
