import AddonBuilder.Text.Blank

/-!
# Patterns

Regular expressions by which names are filtered.
-/

namespace AddonBuilder

/-- A set of characters. -/
inductive CharClass where
  | any
  | one (c : Char)
  | range (low high : Char)
  | digit
  | word
  | space
  | outside (c : CharClass)
  | union (l : List CharClass)
deriving Repr, Inhabited

namespace CharClass

/-- Letters, digits and the underscore. -/
def isWord (c : Char) : Bool := c.isAlphanum || c = '_'

mutual

def contains : CharClass → Char → Bool
  | any, c => c ≠ '\n'
  | one d, c => c = d
  | range low high, c => low ≤ c && c ≤ high
  | digit, c => c.isDigit
  | word, c => isWord c
  | space, c => Text.asciiBlankChar c
  | outside k, c => !contains k c
  | union l, c => anyContains l c

def anyContains : List CharClass → Char → Bool
  | [], _ => false
  | k :: rest, c => contains k c || anyContains rest c

end

end CharClass

/-- A regular expression. -/
inductive Pattern where
  | nothing
  | letter (k : CharClass)
  | seq (p q : Pattern)
  | alt (p q : Pattern)
  | star (p : Pattern)
  | start
  /-- The end of the text, or the line feed that ends it. -/
  | stop
  /-- The very end of the text. -/
  | finish
  /-- A place between a word character and another; or a place that is none. -/
  | boundary (wanted : Bool)
deriving Repr, Inhabited

namespace Pattern

def times (p : Pattern) : Nat → Pattern
  | 0 => nothing
  | n + 1 => seq p (times p n)

def upTo (p : Pattern) : Nat → Pattern
  | 0 => nothing
  | n + 1 => alt (seq p (upTo p n)) nothing

/-- The places reached from some places by a step, repeated. -/
def closure (step : Nat → List Nat) : Nat → List Nat → List Nat
  | 0, reached => reached
  | n + 1, reached =>
    let more := (reached.flatMap step).filter (!reached.contains ·)
    if more.isEmpty then reached else closure step n (reached ++ more.eraseDups)

def isBoundary (text : Array Char) (i : Nat) : Bool :=
  let before := if i = 0 then false else (text[i - 1]?.map CharClass.isWord).getD false
  let after := (text[i]?.map CharClass.isWord).getD false
  before != after

/-- The places where a match that starts at a place may end. -/
def ends (text : Array Char) : Pattern → Nat → List Nat
  | nothing, i => [i]
  | letter k, i => match text[i]? with
    | some c => if k.contains c then [i + 1] else []
    | none => []
  | seq p q, i => ((ends text p i).flatMap (ends text q)).eraseDups
  | alt p q, i => (ends text p i ++ ends text q i).eraseDups
  | star p, i => closure (ends text p) (text.size + 1) [i]
  | start, i => if i = 0 then [i] else []
  | stop, i =>
    if i = text.size || (i + 1 = text.size && text[i]? = some '\n') then [i] else []
  | finish, i => if i = text.size then [i] else []
  | boundary wanted, i => if isBoundary text i = wanted then [i] else []

def occursIn (p : Pattern) (text : String) : Bool :=
  let letters := text.toList.toArray
  (List.range (letters.size + 1)).any fun i => !(ends letters p i).isEmpty

/-- The class or place that a letter after a backslash stands for; a letter without a meaning
stands for nothing, and any other character for itself. -/
def escape? (c : Char) : Option Pattern :=
  match c with
  | 'd' => some (letter .digit)
  | 'D' => some (letter (.outside .digit))
  | 'w' => some (letter .word)
  | 'W' => some (letter (.outside .word))
  | 's' => some (letter .space)
  | 'S' => some (letter (.outside .space))
  | 'b' => some (boundary true)
  | 'B' => some (boundary false)
  | 'A' => some start
  | 'Z' => some finish
  | 'n' => some (letter (.one '\n'))
  | 't' => some (letter (.one '\t'))
  | 'r' => some (letter (.one '\r'))
  | c => if c.isAlphanum then none else some (letter (.one c))

/-- A class in brackets, after its opening bracket. -/
def classItems? (first : Bool) : Nat → List Char → Option (List CharClass × List Char)
  | 0, _ => none
  | _, [] => none
  | n + 1, ']' :: rest => if first then item n (.one ']') ']' rest else some ([], rest)
  | n + 1, '\\' :: c :: rest =>
    match escape? c with
    | some (letter k) => do
      let (l, rest) ← classItems? false n rest
      return (k :: l, rest)
    | _ => none
  | n + 1, c :: rest => item n (.one c) c rest
where
  /-- A single character, or the start of a range. -/
  item (n : Nat) (k : CharClass) (c : Char) (rest : List Char) :
      Option (List CharClass × List Char) :=
    match rest with
    | '-' :: d :: more =>
      if d = ']' then do
        let (l, rest) ← classItems? false n rest
        return (k :: l, rest)
      else if d < c then none
      else do
        let (l, rest) ← classItems? false n more
        return (.range c d :: l, rest)
    | _ => do
      let (l, rest) ← classItems? false n rest
      return (k :: l, rest)

/-- A repetition in braces, after the opening brace: the least and the greatest number. -/
def bounds? (cs : List Char) : Option (Nat × Option Nat × List Char) :=
  let number (l : List Char) : Nat := l.foldl (fun n c => n * 10 + (c.toNat - 48)) 0
  let low := cs.takeWhile Char.isDigit
  match cs.dropWhile Char.isDigit with
  | '}' :: rest => if low.isEmpty then none else some (number low, some (number low), rest)
  | ',' :: more =>
    let high := more.takeWhile Char.isDigit
    match more.dropWhile Char.isDigit with
    | '}' :: rest =>
      if low.isEmpty && high.isEmpty then none
      else some (number low, if high.isEmpty then none else some (number high), rest)
    | _ => none
  | _ => none

/-- A pattern repeated as the text after it says, and the rest.  A second mark makes a repetition
prefer short matches, which does not change whether there is one. -/
def repeated? (p : Pattern) (cs : List Char) : Option (Pattern × List Char) :=
  let lazy rest := match rest with
    | '?' :: more => more
    | _ => rest
  let plain q rest : Option (Pattern × List Char) := match lazy rest with
    | '*' :: _ | '+' :: _ => none
    | more => some (q, more)
  match cs with
  | '*' :: rest => plain (star p) rest
  | '+' :: rest => plain (seq p (star p)) rest
  | '?' :: rest => plain (alt p nothing) rest
  | '{' :: rest =>
    match bounds? rest with
    | some (low, some high, rest) =>
      if high < low then none else plain (seq (times p low) (upTo p (high - low))) rest
    | some (low, none, rest) => plain (seq (times p low) (star p)) rest
    | none => some (p, cs)
  | _ => some (p, cs)

mutual

/-- Alternatives up to a closing parenthesis or the end. -/
def alternatives? : Nat → List Char → Option (Pattern × List Char)
  | 0, _ => none
  | n + 1, cs => do
    let (p, rest) ← sequence? n cs
    match rest with
    | '|' :: more => do
      let (q, rest) ← alternatives? n more
      return (alt p q, rest)
    | _ => return (p, rest)

def sequence? : Nat → List Char → Option (Pattern × List Char)
  | 0, _ => none
  | _, [] => some (nothing, [])
  | n + 1, c :: rest =>
    if c = '|' || c = ')' then some (nothing, c :: rest)
    else do
      let (p, rest) ← piece? n c rest
      let (p, rest) ← repeated? p rest
      let (q, rest) ← sequence? n rest
      return (seq p q, rest)

def piece? : Nat → Char → List Char → Option (Pattern × List Char)
  | 0, _, _ => none
  | n + 1, c, rest =>
    match c with
    | '.' => some (letter .any, rest)
    | '^' => some (start, rest)
    | '$' => some (stop, rest)
    | '*' | '+' | '?' => none
    | '\\' => match rest with
      | [] => none
      | d :: more => (escape? d).map (·, more)
    | '[' => do
      let (negated, body) := match rest with
        | '^' :: more => (true, more)
        | _ => (false, rest)
      let (l, rest) ← classItems? true (body.length + 1) body
      return (letter (if negated then .outside (.union l) else .union l), rest)
    | '(' => do
      let body ← match rest with
        | '?' :: ':' :: more => some more
        | '?' :: _ => none
        | _ => some rest
      match ← alternatives? n body with
      | (p, ')' :: rest) => return (p, rest)
      | _ => none
    | c => some (letter (.one c), rest)

end

def parse? (s : String) : Option Pattern :=
  match alternatives? (3 * s.length + 3) s.toList with
  | some (p, []) => some p
  | _ => none

end Pattern

end AddonBuilder
