import AddonBuilder.Text.Quoted

/-!
# What can be wrong with a JSON text

An error names what was expected or found and the position in the text.
-/

namespace AddonBuilder.Json

open Text

/-- What is wrong at a place of the text. -/
inductive Reason where
  | unterminatedString
  | controlCharacter
  | escape (c : CodePoint)
  | unicodeEscape
  | surrogatePair
  | propertyName
  | colon
  | comma
  | value
deriving DecidableEq, Repr

/-- Why a text is refused. -/
inductive ParseError where
  | wrong (reason : Reason) (pos : Int)
  /-- The text does not start with a document. -/
  | noDocument
  /-- The text goes on after the document. -/
  | extraData (start stop : Nat)
  /-- The bytes of a string are not in the encoding of the text. -/
  | undecodable
deriving DecidableEq, Repr

/-- A position in a text as a number of code points from its start; a negative one counts from the
end. -/
def clampPosition (size : Nat) (pos : Int) : Nat :=
  if pos < 0 then (size + pos).toNat else min pos.toNat size

def lastLineFeed? (t : Text) : Option Nat :=
  (t.reverse.findIdx? (· = 0x0A)).map (t.length - 1 - ·)

def lineAndColumn (source : Text) (pos : Int) : Nat × Int :=
  let before := source.take (clampPosition source.length pos)
  match lastLineFeed? before with
  | none => (1, pos)
  | some i => (before.count 0x0A + 1, pos - i)

/-- A message with the place it is about, which is a position or a range of positions. -/
def placed (what : Text) (source : Text) (start : Int) (stop : Option Int) : Text :=
  let (line, column) := lineAndColumn source start
  match stop with
  | none =>
    what ++ ": line " ++ ofNat line ++ " column " ++ ofInt column ++ " (char " ++ ofInt start ++ ")"
  | some stop =>
    let (lastLine, lastColumn) := lineAndColumn source stop
    what ++ ": line " ++ ofNat line ++ " column " ++ ofInt column ++
      " - line " ++ ofNat lastLine ++ " column " ++ ofInt lastColumn ++
      " (char " ++ ofInt start ++ " - " ++ ofInt stop ++ ")"

/-- What is wrong, without the place. -/
def Reason.phrase : Reason → Text
  | unterminatedString => "Unterminated string starting at"
  | controlCharacter => "Invalid control character %r at"
  | escape c => "Invalid \\escape: " ++ quoted [c]
  | unicodeEscape => "Invalid \\uXXXX escape"
  | surrogatePair => "Invalid \\uXXXX\\uXXXX surrogate pair"
  | propertyName => "Expecting property name"
  | colon => "Expecting : delimiter"
  | comma => "Expecting , delimiter"
  | value => "Expecting object"

/-- The message of an error in a text; bytes that cannot be decoded have none. -/
def ParseError.message? (source : Text) : ParseError → Option Text
  | wrong reason pos => some (placed reason.phrase source pos none)
  | noDocument => some "No JSON object could be decoded"
  | extraData start stop => some (placed "Extra data" source start (some stop))
  | undecodable => none

end AddonBuilder.Json
