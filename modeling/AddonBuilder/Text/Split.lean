import AddonBuilder.Text.Basic

/-!
# Cutting and joining

Operations on lists of any letters: cutting at every letter of a class, at the first occurrence of a
pattern, replacing a pattern, and gluing pieces together.
-/

namespace AddonBuilder.Text

variable {α : Type}

/-- The pieces between the elements of a class.  There is always at least one piece. -/
def pieces (p : α → Bool) : List α → List (List α)
  | [] => [[]]
  | c :: rest =>
    if p c then [] :: pieces p rest
    else match pieces p rest with
      | [] => [[c]]
      | piece :: more => (c :: piece) :: more

/-- What follows the given start. -/
def dropStart? [DecidableEq α] : List α → List α → Option (List α)
  | [], l => some l
  | _ :: _, [] => none
  | c :: start, d :: l => if c = d then dropStart? start l else none

/-- What comes before the given end. -/
def dropEnd? [DecidableEq α] (ending l : List α) : Option (List α) :=
  (dropStart? ending.reverse l.reverse).map List.reverse

/-- The parts before and after the first occurrence of a pattern. -/
def cut? [DecidableEq α] (pattern : List α) : List α → Option (List α × List α)
  | [] => if pattern.isEmpty then some ([], []) else none
  | c :: l =>
    match dropStart? pattern (c :: l) with
    | some rest => some ([], rest)
    | none => (cut? pattern l).map fun (before, after) => (c :: before, after)

/-- Whether a pattern occurs. -/
def occurs [DecidableEq α] (pattern l : List α) : Bool := (cut? pattern l).isSome

/-- Every occurrence of a pattern replaced, from the left; an empty pattern is never replaced. -/
def replace [DecidableEq α] (pattern by_ : List α) (l : List α) : List α :=
  match pattern with
  | [] => l
  | first :: more => go first more l.length l
where
  /-- Replaces in the first part of a list; the number bounds its length. -/
  go (first : α) (more : List α) : Nat → List α → List α
    | 0, l => l
    | _ + 1, [] => []
    | n + 1, c :: l =>
      match dropStart? (first :: more) (c :: l) with
      | some rest => by_ ++ go first more n rest
      | none => c :: go first more n l

/-- Puts a separator between pieces. -/
def intercalate (separator : List α) : List (List α) → List α
  | [] => []
  | [piece] => piece
  | piece :: rest => piece ++ separator ++ intercalate separator rest

/-- Splits at every occurrence of a character. -/
def splitString (c : Char) (s : String) : List String :=
  (pieces (· == c) s.toList).map String.ofList

/-- Joins strings with a separator. -/
def joinStrings (separator : String) (l : List String) : String := separator.intercalate l

/-- Whether a string starts with another. -/
def beginsWith (s start : String) : Bool := (dropStart? start.toList s.toList).isSome

/-- Whether a string ends with another. -/
def endsWith (s ending : String) : Bool := (dropEnd? ending.toList s.toList).isSome

def afterStart? (s start : String) : Option String :=
  (dropStart? start.toList s.toList).map String.ofList

/-- A string without a given ending, if it has it. -/
def beforeEnd? (s ending : String) : Option String :=
  (dropEnd? ending.toList s.toList).map String.ofList

def occursIn (pattern s : String) : Bool := occurs pattern.toList s.toList

/-- Replaces every occurrence, from the left. -/
def replaceString (pattern by_ s : String) : String :=
  String.ofList (replace pattern.toList by_.toList s.toList)

end AddonBuilder.Text
