/-!
# Text as code points

A `Text` is a sequence of Unicode code points.
-/

namespace AddonBuilder

/-- A Unicode code point, surrogates included. -/
abbrev CodePoint := Fin 0x110000

/-- The bound is positive, which gives numerals their meaning as code points. -/
instance CodePoint.neZero : @NeZero Nat Zero.ofOfNat0 0x110000 := ⟨Nat.succ_ne_zero 0x10FFFF⟩

namespace CodePoint

/-- The code point of a character. -/
def ofChar (c : Char) : CodePoint :=
  ⟨c.toNat, by
    have h := c.valid
    simp only [UInt32.isValidChar, Nat.isValidChar] at h
    show c.val.toNat < 0x110000
    omega⟩

/-- A code point from a number that is known to be in range only at run time. -/
def ofNat? (n : Nat) : Option CodePoint :=
  if h : n < 0x110000 then some ⟨n, h⟩ else none

/-- Whether a code point starts a pair. -/
def isHighSurrogate (p : CodePoint) : Bool := 0xD800 ≤ p.val && p.val ≤ 0xDBFF

def isSurrogate (p : CodePoint) : Bool := 0xD800 ≤ p.val && p.val ≤ 0xDFFF

/-- The character at a code point; surrogates have none. -/
def toChar? (p : CodePoint) : Option Char :=
  if p.isSurrogate then none else some (Char.ofNat p.val)

/-- The character of a byte in Latin 1. -/
def ofByte (b : UInt8) : CodePoint :=
  ⟨b.toNat, Nat.lt_trans b.toNat_lt (by decide)⟩

end CodePoint

/-- A text, of which surrogates may be part. -/
abbrev Text := List CodePoint

namespace Text

/-- The code points of a string. -/
def ofString (s : String) : Text := s.toList.map CodePoint.ofChar

instance : Coe String Text := ⟨ofString⟩

theorem ofString_append (s t : String) : ofString (s ++ t) = ofString s ++ ofString t := by
  simp [ofString]

/-- The string with these code points, if there is one. -/
def toString? (t : Text) : Option String := (t.mapM CodePoint.toChar?).map String.ofList

/-- The string with these code points, a replacement character standing for each surrogate. -/
def display (t : Text) : String :=
  String.ofList (t.map fun p => p.toChar?.getD (Char.ofNat 0xFFFD))

/-- Whether a surrogate is part of a text. -/
def hasSurrogate (t : Text) : Bool := t.any CodePoint.isSurrogate

/-- The order of code points, letter by letter; a proper beginning comes first. -/
def le (s t : Text) : Bool := !List.lex t s fun a b => a.val < b.val

def replicate (n : Nat) (t : Text) : Text := (List.replicate n t).flatten

/-- Groups one after another, with a separator as a group of its own between them. -/
def join {α : Type} (separator : α) : List (List α) → List α
  | [] => []
  | [g] => g
  | g :: rest => g ++ separator :: join separator rest

/-- Whether a number is in a class that is given by the lengths of its runs: the numbers from 0 on are
inside and outside by turns, and outside after the last run. -/
def inRuns (inside : Bool) : List Nat → Nat → Bool
  | [], _ => false
  | run :: runs, n => if n < run then inside else inRuns (!inside) runs (n - run)

/-- A number in decimal digits. -/
def ofNat (n : Nat) : Text := ofString (toString n)

/-- An integer in decimal, with a leading minus sign if it is negative. -/
def ofInt (n : Int) : Text := ofString (toString n)

end Text

end AddonBuilder
