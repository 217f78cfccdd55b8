import AddonBuilder.Text.Basic

/-!
# White space and lines

`isAsciiBlank` is the white space of the machine-readable formats, and `isBlank` that of all
scripts, by which texts written by people are trimmed and cut into words.
-/

namespace AddonBuilder.Text

/-- The white space of ASCII. -/
def isAsciiBlank (n : Nat) : Bool := n == 0x20 || (0x9 ≤ n && n ≤ 0xD)

/-- The white space of all scripts. -/
def isBlank (n : Nat) : Bool :=
  isAsciiBlank n || (0x1C ≤ n && n ≤ 0x1F) || n == 0x85 || n == 0xA0 || n == 0x1680 ||
    (0x2000 ≤ n && n ≤ 0x200A) || n == 0x2028 || n == 0x2029 || n == 0x202F || n == 0x205F ||
    n == 0x3000

/-- The characters at which Unicode text is cut into lines. -/
def isLineBreak (n : Nat) : Bool :=
  (0xA ≤ n && n ≤ 0xD) || (0x1C ≤ n && n ≤ 0x1E) || n == 0x85 || n == 0x2028 || n == 0x2029

def trimStart {α : Type} (p : α → Bool) (l : List α) : List α := l.dropWhile p

/-- Drops items from the end as long as they fit. -/
def trimEnd {α : Type} (p : α → Bool) (l : List α) : List α := (l.reverse.dropWhile p).reverse

/-- A list without the elements of a class at either end. -/
def trim {α : Type} (p : α → Bool) (l : List α) : List α := trimEnd p (trimStart p l)

/-- The maximal runs of elements outside a class. -/
def words {α : Type} (p : α → Bool) (l : List α) : List (List α) :=
  let (last, rest) := l.foldr
    (fun c (w, ws) => if p c then ([], if w.isEmpty then ws else w :: ws) else (c :: w, ws)) ([], [])
  if last.isEmpty then rest else last :: rest

/-- An element in front of the first of some lines. -/
def consLine {α : Type} (c : α) : List (List α) → List (List α)
  | [] => [[c]]
  | line :: lines => (c :: line) :: lines

/-- Lines with the boundary that ends each; `code` reads an element as a number.  The text after
the last boundary is a line if it is not empty. -/
def linesWithEnds {α : Type} (code : α → Nat) : List α → List (List α)
  | [] => []
  | [c] => [[c]]
  | c :: d :: rest =>
    if isLineBreak (code c) then
      if code c == 0xD && code d == 0xA then [c, d] :: linesWithEnds code rest
      else [c] :: linesWithEnds code (d :: rest)
    else consLine c (linesWithEnds code (d :: rest))

/-- Lines without the boundaries. -/
def splitLines {α : Type} (code : α → Nat) : List α → List (List α)
  | [] => []
  | [c] => if isLineBreak (code c) then [[]] else [[c]]
  | c :: d :: rest =>
    if isLineBreak (code c) then
      if code c == 0xD && code d == 0xA then [] :: splitLines code rest
      else [] :: splitLines code (d :: rest)
    else consLine c (splitLines code (d :: rest))

def blankChar (c : Char) : Bool := isBlank c.toNat

def asciiBlankChar (c : Char) : Bool := isAsciiBlank c.toNat

/-- A string without white space at its ends. -/
def trimString (s : String) : String := String.ofList (trim blankChar s.toList)

def trimStringEnd (s : String) : String := String.ofList (trimEnd blankChar s.toList)

def wordsOf (s : String) : List String := (words blankChar s.toList).map String.ofList

def linesOf (s : String) : List String := (splitLines Char.toNat s.toList).map String.ofList

/-- The lines of a text, each with the line feed that ends it. -/
def cutAfterLineFeed : List Char → List (List Char)
  | [] => []
  | c :: rest =>
    if c = '\n' then [c] :: cutAfterLineFeed rest
    else match cutAfterLineFeed rest with
      | [] => [[c]]
      | line :: lines => (c :: line) :: lines

end AddonBuilder.Text
