import AddonBuilder.CommandLine.Arguments
import AddonBuilder.Session.Basic

/-!
# Help on a program

The help lists the switches with their names on the left and what they do on the right.
-/

namespace AddonBuilder.CommandLine

open Json String
open Session

def helpWidth : Nat := 78

/-- The column in which explanations start at the latest. -/
def helpColumn : Nat := 24

def isLetter (c : Char) : Bool := c.isAlpha || c = '_'

/-- Whether a word may be cut between what stands before, last character first, and what stands
after. -/
def mayCut (before after : List Char) : Bool :=
  (match before with
    | '-' :: b :: a :: rest =>
      (isLetter a && isLetter b) || (a = '-' && isLetter b && rest.head?.any isLetter)
    | _ => false) &&
  (match after with
    | a :: '-' :: b :: _ => isLetter a && isLetter b
    | a :: b :: _ => isLetter a && isLetter b
    | _ => false)

/-- The pieces of a text between which a line may end: blanks, and words cut after hyphens.  `before`
holds the piece that is being read, last character first. -/
def linePieces (before : List Char) : List Char → List (List Char)
  | [] => if before.isEmpty then [] else [before.reverse]
  | c :: rest =>
    let ends := match before with
      | [] => false
      | b :: _ => (b = ' ') != (c = ' ') || mayCut before (c :: rest)
    if ends then before.reverse :: linePieces [c] rest else linePieces (c :: before) rest

def finishLine (line : List Char) : List Char := Text.trimEnd (· = ' ') line

def fillLines (width : Nat) (line : List Char) : List (List Char) → List (List Char)
  | [] => if (finishLine line).isEmpty then [] else [finishLine line]
  | piece :: rest =>
    if line.length + piece.length ≤ width then fillLines width (line ++ piece) rest
    else finishLine line :: fillLines width (if piece.all (· = ' ') then [] else piece) rest

def wrapped (width : Nat) (s : String) : List String :=
  (fillLines width [] (linePieces [] s.toList)).map ofList

def blanks (n : Nat) : String := ofList (List.replicate n ' ')

def Switch.names (s : Switch) : String :=
  let (short, long) := match s.kind? with
    | none => ("", "")
    | some _ =>
      let value := s.placeholder.getD s.target.toUpper
      (" " ++ value, "=" ++ value)
  Text.joinStrings ", "
    ((s.short.toList.map fun c => "-" ++ ofList [c] ++ short) ++ ["--" ++ s.long ++ long])

def Switch.describe (indent column : Nat) (s : Switch) : String :=
  let room := column - indent - 2
  let names := s.names
  let first := blanks indent ++ names ++
    (if names.length > room then "\n" ++ blanks column else blanks (room - names.length + 2))
  match wrapped (helpWidth - column) s.help with
  | [] => first ++ "\n"
  | line :: lines =>
    first ++ line ++ "\n" ++ join (lines.map fun l => blanks column ++ l ++ "\n")

def Program.usageText (p : Program) : String := "Usage: " ++ p.usage ++ "\n"

def Program.helpText (p : Program) : String :=
  let longest (indent : Nat) (l : List Switch) : List Nat := l.map fun s => s.names.length + indent
  let widths := longest 2 p.ownSwitches ++ p.groups.flatMap fun g => longest 4 g.switches
  let column := min (widths.foldl max 0 + 2) helpColumn
  let own := "Options:\n" ++ join (p.ownSwitches.map (Switch.describe 2 column))
  let groups := p.groups.map fun g =>
    "  " ++ g.title ++ ":\n" ++ join (g.switches.map (Switch.describe 4 column))
  p.usageText ++ "\n" ++ Text.joinStrings "\n" (own :: groups)

/-- What a program does with its arguments before its own work: the targets and the words, if the
work is to start. -/
def Program.heed (p : Program) (a : Arguments) : Command (Members × List Value) := do
  match a.ending with
  | .words l => return (a.values, l)
  | .help => write p.helpText; leave 0
  | .version => print p.version; leave 0
  | .wrong message =>
    printError p.usageText
    printError (Text.ofString p.name ++ ": error: " ++ message)
    leave 2
  | .flawed d => flaw d

def Complaint.fault : Complaint → AddonBuilder.Fault
  | .defect d => .defect d
  | .json name => .badOption (some (Complaint.json name).message)
  | _ => .badOption none

end AddonBuilder.CommandLine
