import AddonBuilder.Text.Blank
import AddonBuilder.Text.Codec
import AddonBuilder.Text.Lower

/-!
# Strings of bytes and of characters

What is read from a file is a string of **bytes**, in which every byte is a letter of its own, or a
string of **characters**, for which the file must be UTF-8.
-/

namespace AddonBuilder

/-- How a platform holds strings. -/
inductive Strings where
  | bytes
  | characters
deriving DecidableEq, Repr

namespace Strings

/-- The string that some bytes are read as. -/
def read? : Strings → Bytes → Option String
  | bytes, content => some (String.ofList (content.map fun b => Char.ofNat b.toNat))
  | characters, content => Codec.stringOfUtf8? content

/-- The text of a program.  A string of bytes that is UTF-8 is taken by its characters, as the names
of files are. -/
def source? (k : Strings) (content : Bytes) : Option String :=
  Codec.stringOfUtf8? content <|> k.read? content

/-- The bytes that a string is written as. -/
def write : Strings → String → Bytes
  | bytes, s => s.toList.map fun c => c.toNat.toUInt8
  | characters, s => Codec.utf8OfString s

/-- Lower case: only ASCII letters change in an 8-bit string. -/
def lower : Strings → String → String
  | bytes, s => String.ofList (s.toList.map Char.toLower)
  | characters, s => Text.lower s

/-- The code by which a letter is known as a line boundary. -/
def lineCode : Strings → Char → Nat
  | bytes, c => if c = '\n' ∨ c = '\r' then c.toNat else 0
  | characters, c => c.toNat

/-- The lines of a string, without their boundaries. -/
def lines (k : Strings) (s : String) : List String :=
  (Text.splitLines k.lineCode s.toList).map String.ofList

end Strings

end AddonBuilder
