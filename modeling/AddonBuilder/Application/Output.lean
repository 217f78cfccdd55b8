import AddonBuilder.Files.Tree
import AddonBuilder.Text.Strings
import AddonBuilder.Defect

/-!
# Output of a running application

A file to which an application writes is **followed**: each look gives what was added since the last
one.
-/

namespace AddonBuilder.Application

open Text

/-- What is known of a file that is followed.  The application may write between the moment at which the
size is taken and that at which the content is read, so the two numbers may differ. -/
structure Follower where
  /-- The size at which the file was last found to have grown. -/
  size : Nat := 0
  /-- The place up to which the file was read. -/
  pos : Nat := 0
deriving DecidableEq, Repr

/-- Takes note of the size of the file, if that has grown. -/
def Follower.notice? (w : Follower) (size : Nat) : Option Follower :=
  if w.size < size then some { w with size } else none

/-- Reads the file from the place up to which it was read before. -/
def Follower.read (w : Follower) (content : Bytes) : Bytes × Follower :=
  (content.drop w.pos, { w with pos := max w.pos content.length })

/-- A look at a file while nobody writes to it: what was added. -/
def Follower.look (w : Follower) (content : Option Bytes) : Option Bytes × Follower :=
  match content with
  | none => (none, w)
  | some bytes =>
    match w.notice? bytes.length with
    | none => (none, w)
    | some w =>
      let (added, w) := w.read bytes
      (some added, w)

/-- What was added to a file, as a string. -/
def addedText (k : Strings) : Option Bytes → Except Defect (Option String)
  | none => .ok none
  | some bytes =>
    match k.read? bytes with
    | some added => .ok (some added)
    | none => .error .encoding

/-- What was added to a file since the last look. -/
def look (k : Strings) (files : Files) (path : String) (w : Follower) :
    Except Defect (Option String) × Follower :=
  let (added, w) := w.look (files.read? path)
  (addedText k added, w)

/-- Looks at a file of which the content at each look is given, where there is a file. -/
def looks (k : Strings) (w : Follower) : List (Option Bytes) → List (Except Defect (Option String))
  | [] => []
  | content :: rest =>
    let tree : FileTree := content.toList.map fun bytes => (["log"], .file bytes)
    let (added, w) := look k { tree } "/log" w
    added :: looks k w rest

/-- A line of the log of a device, which is marked with its source. -/
structure LogLine where
  /-- The letter that tells how grave it is. -/
  weight : Char
  source : String
  message : String
deriving DecidableEq, Repr

/-- What is left of a text up to the end of its line, if that is the end of the text. -/
def untilEnd? (cs : List Char) : Option (List Char) :=
  match cs.span (· ≠ '\n') with
  | (line, []) | (line, ['\n']) => some line
  | _ => none

def afterWord? (words : List String) (cs : List Char) : Option (String × List Char) :=
  words.findSome? fun w => (dropStart? w.toList cs).map (w, ·)

/-- The number in brackets that names a process, and the colon after it. -/
def afterProcess? (cs : List Char) : Option (List Char) :=
  match cs.dropWhile asciiBlankChar with
  | '(' :: rest =>
    match (rest.dropWhile asciiBlankChar).span Char.isDigit with
    | (_ :: _, ')' :: ':' :: rest) => some (rest.dropWhile asciiBlankChar)
    | _ => none
  | _ => none

def LogLine.parse? (line : String) : Option LogLine :=
  match line.toList with
  | weight :: '/' :: rest => do
    if weight ≠ 'I' && weight ≠ 'E' then none
    let (source, rest) ← afterWord? ["stdout", "stderr", "GeckoConsole"] rest
    return ⟨weight, source, String.ofList (← untilEnd? (← afterProcess? rest))⟩
  | _ => none

/-- A message that an add-on wrote to its console. -/
structure ConsoleLine where
  source : String
  message : String
  level : String
deriving DecidableEq, Repr

def ConsoleLine.parse? (line : String) : Option ConsoleLine := do
  let l ← LogLine.parse? line
  if l.weight ≠ 'I' || l.source = "GeckoConsole" then none
  let (level, rest) ← afterWord? ["info", "warning", "error", "debug"] l.message.toList
  if dropStart? [':', ' '] rest |>.isNone then none
  return ⟨l.source, l.message, level⟩

/-- The name of the test that a text announces where it begins. -/
def testHere? (cs : List Char) : Option String := do
  let after ← dropStart? "TEST-START | ".toList cs
  match after.span (· ≠ '\n') with
  | (name@(_ :: _), '\n' :: _) => some (String.ofList name)
  | _ => none

/-- The name of the first test that a text announces. -/
def testName? : List Char → Option String
  | [] => none
  | c :: rest =>
    match testHere? (c :: rest) with
    | some name => some name
    | none => testName? rest

/-- The version that an application tells of itself: its product, and the version. -/
structure Told where
  product : String
  major : Nat
  version : String
deriving DecidableEq, Repr

def toldBehind? (product : String) (cs : List Char) : Option Told := do
  if cs.head?.any fun c => c.isAlphanum || c = '_' then none
  match cs.dropWhile (· ≠ ' ') with
  | ' ' :: rest =>
    match rest.span Char.isDigit with
    | (digits@(_ :: _), '.' :: _) =>
      let major := digits.foldl (fun n d => n * 10 + (d.toNat - '0'.toNat)) 0
      return ⟨product, major, String.ofList (rest.takeWhile fun c => !asciiBlankChar c)⟩
    | _ => none
  | _ => none

def told? : List Char → Option Told
  | [] => none
  | c :: rest =>
    let here : Option Told := do
      let after ← dropStart? "Mozilla ".toList (c :: rest)
      let (product, after) ← afterWord? ["Firefox", "Iceweasel", "Fennec"] after
      toldBehind? product after
    match here with
    | some t => some t
    | none => told? rest

/-- The branch of a version: what stands before the first point, and digits and letters after it. -/
def branch? (version : String) : Option String :=
  match version.toList.span (· ≠ '.') with
  | (before@(_ :: _), '.' :: rest) =>
    match rest.span Char.isDigit with
    | (digits@(_ :: _), rest) =>
      some (String.ofList (before ++ '.' :: digits ++ rest.takeWhile Char.isAlpha))
    | _ => none
  | _ => none

end AddonBuilder.Application
