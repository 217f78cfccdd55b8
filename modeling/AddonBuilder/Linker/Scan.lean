import AddonBuilder.Files.Tree
import AddonBuilder.Text.Blank

/-!
# What a module asks for

The text of a module is searched, not parsed.
-/

namespace AddonBuilder.Linker

open Text

def isQuote (c : Char) : Bool := c = '\'' || c = '"'

/-- What follows a word, an opening parenthesis and the white space around it. -/
def callOpening? (word : String) (cs : List Char) : Option (List Char) := do
  match (← dropStart? word.toList cs).dropWhile asciiBlankChar with
  | '(' :: rest => some (rest.dropWhile asciiBlankChar)
  | _ => none

/-- A name between quotes, of any kind, and what follows it. -/
def quotedName? (cs : List Char) : Option (List Char × List Char) :=
  match cs with
  | [] => none
  | q :: rest =>
    let name := rest.takeWhile (!isQuote ·)
    match rest.dropWhile (!isQuote ·) with
    | [] => none
    | _ :: after => if isQuote q && !name.isEmpty then some (name, after) else none

/-- The name that is asked for by a call at the start of a text, and what follows the call. -/
def requireCall? (cs : List Char) : Option (List Char × List Char) := do
  let (name, rest) ← quotedName? (← callOpening? "require" cs)
  match rest.dropWhile asciiBlankChar with
  | ')' :: after => some (name, after)
  | _ => none

/-- The list of names at the start of a text, as it is written between the brackets, and what
follows it. -/
def nameList? (cs : List Char) : Option (List Char × List Char) := do
  let rest ← (callOpening? "require" cs <|> callOpening? "define" cs)
  let rest ← match quotedName? rest with
    | none => some rest
    | some (_, after) => match after.dropWhile asciiBlankChar with
      | ',' :: after => some (after.dropWhile asciiBlankChar)
      | _ => none
  match rest with
  | '[' :: inside =>
    let names := inside.takeWhile (· ≠ ']')
    match inside.dropWhile (· ≠ ']') with
    | [] => none
    | _ :: after => if names.isEmpty then none else some (names, after)
  | _ => none

/-- All matches of a pattern from left to right.  A match starts after the one before it, and may
be refused because of the character before it.  The number bounds the length of the text. -/
def allMatches (refused : Char → Bool) (match? : List Char → Option (List Char × List Char)) :
    Nat → Bool → List Char → List (List Char)
  | 0, _, _ => []
  | _ + 1, _, [] => []
  | n + 1, skip, c :: rest =>
    match (if skip then none else match? (c :: rest)) with
    | some (found, after) => found :: allMatches refused match? n false after
    | none => allMatches refused match? n (refused c) rest

/-- The names asked for by calls in a clause.  A call inside quotes is none. -/
def requireCalls (clause : List Char) : List String :=
  (allMatches isQuote requireCall? clause.length false clause).map String.ofList

/-- A name in a list: a text between quotes without quotes in it. -/
def listedName? (item : List Char) : Option String :=
  match trim asciiBlankChar item with
  | q :: rest =>
    match quotedName? (q :: rest) with
    | some (name, []) => if name = "exports".toList then none else some (String.ofList name)
    | _ => none
  | [] => none

/-- The names in the lists of `define` calls. -/
def listedNames (cs : List Char) : List String :=
  (allMatches (fun _ => false) nameList? cs.length false cs).flatMap fun names =>
    (pieces (· == ',') names).filterMap listedName?

/-- The beginnings that make a clause or line a comment. -/
def commentStarts : List String := ["//", "/*", "*", "dump("]

def isComment (cs : List Char) : Bool :=
  commentStarts.any fun s => (dropStart? s.toList cs).isSome

/-- The names that a module asks for, each with the line of the first call that asks for it; a
name that occurs in lists only has no line. -/
abbrev Requirements := Assoc String (Option Nat)

/-- The names asked for by calls in a line. -/
def lineRequires (line : List Char) : List String :=
  ((pieces (· == ';') line).map (trim asciiBlankChar)).flatMap fun clause =>
    if isComment clause then [] else requireCalls clause

def addName (line : Option Nat) (r : Requirements) (name : String) : Requirements :=
  if Assoc.contains r name then r else Assoc.insert r name line

/-- The names that a module asks for, each with the line of its first call. -/
def requirements (lines : List (List Char)) : Requirements :=
  let calls := (lines.zipIdx 1).foldl
    (fun r (line, n) => (lineRequires line).foldl (addName (some n)) r) []
  (listedNames (intercalate ['\n'] lines)).foldl (addName none) calls

def callLines (r : Requirements) : Assoc String Nat :=
  r.filterMap fun (name, line) => line.map (name, ·)

/-- The short names for parts of `Components`. -/
def chromeAliases : List (String × String) := [
  ("Components.classes", "Cc"), ("Components.interfaces", "Ci"), ("Components.utils", "Cu"),
  ("Components.results", "Cr"), ("Components.manager", "Cm")]

def usesComponents : List Char → Bool
  | [] => false
  | c :: rest =>
    (match dropStart? "Components.".toList (c :: rest) with
      | some (d :: _) => d.isAlpha
      | _ => false) || usesComponents rest

def chromeUses (line : List Char) : List String :=
  let known := chromeAliases.filterMap fun (long, short) =>
    if occurs long.toList line then some short else none
  if known.isEmpty && usesComponents line then ["components"] else known

/-- The lines of a module that use `Components`, with their numbers and the short names of what
they use. -/
def chromeLines (lines : List (List Char)) : List (Nat × List Char × List String) :=
  (lines.zipIdx 1).filterMap fun (line, n) =>
    let line := trim asciiBlankChar line
    let uses := if isComment line then [] else chromeUses line
    if uses.isEmpty then none else some (n, line, uses)

def alignedNumber (n : Nat) : String :=
  let s := toString n
  String.ofList (List.replicate (3 - s.length) ' ') ++ s

def chromeAdvice (file : String) (lines : List (Nat × List Char × List String)) : String :=
  let needs := sortedStrings ((lines.flatMap fun (_, _, uses) => uses).eraseDups)
  "\nThe following lines from file " ++ file ++ ":\n" ++
    joinStrings "\n"
      (lines.map fun (n, line, _) => " " ++ alignedNumber n ++ ": " ++ String.ofList line) ++
    "\nuse 'Components' to access chrome authority. To do so, you need to add a\n" ++
    "line somewhat like the following:\n\n  const \x7b" ++ joinStrings "," needs ++
    "\x7d = require(\"chrome\");\n\n" ++
    "Then you can use any shortcuts to its properties that you import from the\n" ++
    "'chrome' module ('Cc', 'Ci', 'Cm', 'Cr', and 'Cu' for the 'classes',\n" ++
    "'interfaces', 'manager', 'results', and 'utils' properties, respectively. And\n" ++
    "`components` for `Components` object itself).\n\n"

/-- The name of the file that loads modules, which may use `Components` freely. -/
def loaderFile : String := "cuddlefish.js"

/-- The advice about a module's direct uses of `Components`, if there are any. -/
def chromeProblem? (file : String) (lines : List (List Char)) : Option String :=
  if Path.base file = loaderFile then none
  else match chromeLines lines with
    | [] => none
    | found => some (chromeAdvice file found)

end AddonBuilder.Linker
