import AddonBuilder.Text.Printable

/-!
# Quoted text

How messages quote a text: in single quotes, or in double quotes if the text holds a single quote
and no double one.
-/

namespace AddonBuilder.Text

/-- A number in lower-case hexadecimal with at least `width` digits. -/
def hex (width n : Nat) : String :=
  let digits := Nat.toDigits 16 n
  String.ofList (List.replicate (width - digits.length) '0' ++ digits)

def quotePoint (quote : Char) (p : CodePoint) : Text :=
  let n := p.val
  if n = quote.toNat || n = 0x5C then [0x5C, p]
  else if n = 0x0A then "\\n"
  else if n = 0x0D then "\\r"
  else if n = 0x09 then "\\t"
  else if isPrintable n then [p]
  else if n < 0x100 then "\\x" ++ hex 2 n
  else if n < 0x10000 then "\\u" ++ hex 4 n
  else "\\U" ++ hex 8 n

/-- A text in quotes, as messages show it. -/
def quoted (t : Text) : Text :=
  let quote := if t.contains 0x27 && !t.contains 0x22 then '"' else '\''
  CodePoint.ofChar quote :: (t.flatMap (quotePoint quote) ++ [CodePoint.ofChar quote])

def quotedString (s : String) : String := (quoted s).display

end AddonBuilder.Text
