import AddonBuilder.Text.Quoted
import AddonBuilder.Text.Split

/-!
# Versions of applications

A version is a sequence of parts divided by full stops.
-/

namespace AddonBuilder.Version

/-- A part of a version, in its four fields. -/
structure Part where
  number : Nat := 0
  word : Option String := none
  second : Nat := 0
  extra : Option String := none
deriving DecidableEq, Repr, Inhabited

/-- The number that the part `*` stands for. -/
def anyNumber : Nat := 0x7FFFFFFFFFFFFFFF

namespace Part

def startsNumber (c : Char) : Bool := c.isDigit || c = '+' || c = '-'

/-- The number written by decimal digits; there must be at least one. -/
def number? (digits : List Char) : Option Nat :=
  if digits.isEmpty then none
  else some (digits.foldl (fun n c => n * 10 + (c.toNat - '0'.toNat)) 0)

/-- A number at the start of a text and what follows it on the same line.  A sign before the number
is skipped. -/
def leading? (cs : List Char) : Option (Nat × List Char) :=
  let cs := match cs with
    | c :: rest => if c = '+' || c = '-' then rest else cs
    | [] => []
  (number? (cs.takeWhile Char.isDigit)).map fun n =>
    (n, (cs.dropWhile Char.isDigit).takeWhile (· ≠ '\n'))

def word? (cs : List Char) : Option String := if cs.isEmpty then none else some (String.ofList cs)

/-- The part written by a text; `none` if a number is missing where one has to be. -/
def parse? (s : String) : Option Part :=
  if s = "" then some {}
  else if s = "*" then some { number := anyNumber }
  else do
    let (number, rest) ← leading? s.toList
    if rest = ['+'] then return { number := number + 1, word := some "pre" }
    let word := rest.takeWhile (!startsNumber ·)
    let tail := rest.dropWhile (!startsNumber ·)
    if tail.isEmpty then return { number, word := word? rest }
    let (second, extra) ← leading? tail
    return { number, word := some (String.ofList word), second, extra := word? extra }

/-- The order of words: a missing word is after every word. -/
def compareWords : Option String → Option String → Ordering
  | none, none => .eq
  | none, some _ => .gt
  | some _, none => .lt
  | some a, some b => Ord.compare a b

def compare (a b : Part) : Ordering :=
  (Ord.compare a.number b.number).then <| (compareWords a.word b.word).then <|
    (Ord.compare a.second b.second).then <| compareWords a.extra b.extra

def shownWord : Option String → String
  | none => "None"
  | some w => Text.quotedString w

/-- A part as a tuple of its four fields. -/
def shown (p : Part) : String :=
  s!"({p.number}, {shownWord p.word}, {p.second}, {shownWord p.extra})"

end Part

/-- The parts of a version, between dots. -/
def parts (version : String) : List String := Text.splitString '.' version

/-- Compares parts pairwise up to the first difference; the shorter list goes on with empty parts. -/
def compareParts? : List String → List String → Option Ordering
  | [], [] => some .eq
  | a :: as, [] => step a "" (compareParts? as [])
  | [], b :: bs => step "" b (compareParts? [] bs)
  | a :: as, b :: bs => step a b (compareParts? as bs)
where
  /-- Compares one pair of parts, and goes on if they are equal. -/
  step (a b : String) (rest : Option Ordering) : Option Ordering := do
    let p ← Part.parse? a
    let q ← Part.parse? b
    match p.compare q with
    | .eq => rest
    | o => return o

/-- The order of two versions; `none` if a part that matters cannot be read. -/
def compare? (a b : String) : Option Ordering := compareParts? (parts a) (parts b)

/-- Versions in ascending order, equal ones as they come; `none` if some two of them cannot be
compared. -/
def sort? (versions : List String) : Option (List String) :=
  if comparable versions then
    some (versions.mergeSort fun a b => compare? a b != some .gt)
  else none
where
  comparable : List String → Bool
    | [] => true
    | v :: rest => rest.all (fun w => (compare? v w).isSome) && comparable rest

end AddonBuilder.Version
