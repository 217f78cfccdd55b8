import AddonBuilder.Text.Basic

/-!
# Encodings

UTF-8, ASCII and Latin-1 as partial functions from bytes to text.
-/

namespace AddonBuilder

/-- An 8-bit string. -/
abbrev Bytes := List UInt8

/-- The encodings in which byte strings may be written. -/
inductive Codec where
  | utf8
  | latin1
  | ascii
deriving DecidableEq, Repr

namespace Codec

def stringOfUtf8? (bytes : Bytes) : Option String := String.fromUTF8? bytes.toByteArray

def decodeUtf8? (bytes : Bytes) : Option Text := (stringOfUtf8? bytes).map Text.ofString

/-- Decodes bytes, if they are in the encoding. -/
def decode? : Codec → Bytes → Option Text
  | utf8, bytes => decodeUtf8? bytes
  | latin1, bytes => some (bytes.map CodePoint.ofByte)
  | ascii, bytes => if bytes.all (·.toNat < 0x80) then some (bytes.map CodePoint.ofByte) else none

/-- The bytes of a string in UTF-8. -/
def utf8OfString (s : String) : Bytes := s.toUTF8.data.toList

/-- The UTF-8 form of a text; a text with a surrogate has none. -/
def encodeUtf8? (t : Text) : Option Bytes := t.toString?.map utf8OfString

end Codec

end AddonBuilder
