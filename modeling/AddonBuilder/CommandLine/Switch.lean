import AddonBuilder.Defect
import AddonBuilder.Json.Parser
import AddonBuilder.Json.Shown

/-!
# Switches of a command line

A program takes **switches** with a short or a long name, and words.
-/

namespace AddonBuilder.CommandLine

open Json

/-- What the value of a switch must look like. -/
inductive Kind where
  | text
  /-- An integer, which may be hexadecimal, binary or octal. -/
  | integer
  | choice (choices : List String)
  | json
deriving DecidableEq, Repr

/-- What a switch does with its target. -/
inductive Effect where
  | set (b : Bool)
  | store (kind : Kind)
  | append
  | help
  | version
deriving DecidableEq, Repr

/-- A switch of a command line. -/
structure Switch where
  short : Option Char := none
  long : String
  target : String
  help : String
  effect : Effect := .store .text
  /-- What stands for the value in the help. -/
  placeholder : Option String := none
  initial : Value := .null

/-- Switches that the help lists under one title. -/
structure Group where
  title : String
  switches : List Switch

/-- A program as its command line and its help show it. -/
structure Program where
  name : String
  usage : String
  version : Text
  /-- The switches of no group. -/
  switches : List Switch
  groups : List Group := []

def Switch.kind? (s : Switch) : Option Kind :=
  match s.effect with
  | .store kind => some kind
  | .append => some .text
  | _ => none

def Switch.shortName? (s : Switch) : Option Text :=
  s.short.map fun c => ("-" : Text) ++ [CodePoint.ofChar c]

def Switch.longName (s : Switch) : Text := "--" ++ s.long

def versionSwitch : Switch where
  long := "version"
  target := ""
  help := "show program's version number and exit"
  effect := .version

def helpSwitch : Switch where
  short := some 'h'
  long := "help"
  target := ""
  help := "show this help message and exit"
  effect := .help

/-- The switches of no group, with those that every program has. -/
def Program.ownSwitches (p : Program) : List Switch := versionSwitch :: helpSwitch :: p.switches

def Program.allSwitches (p : Program) : List Switch :=
  p.ownSwitches ++ p.groups.flatMap Group.switches

/-- Why the value of a switch is refused. -/
inductive Complaint where
  | integer (name : Text) (v : Value)
  | choice (name : Text) (v : Value) (choices : List String)
  | json (name : Text)
  | defect (d : Defect)
deriving Repr

def Complaint.message : Complaint → Text
  | integer name v => "option " ++ name ++ ": invalid integer value: " ++ v.shown
  | choice name v choices =>
    "option " ++ name ++ ": invalid choice: " ++ v.shown ++ " (choose from " ++
      commaSeparated (choices.map fun c => Text.quoted (Text.ofString c)) ++ ")"
  | json name => "Option " ++ name ++ " must be JSON."
  | defect _ => ""

/-- An integer in a base.  The mark of the base may stand in front, and an underscore may stand between
digits. -/
def integerIn? (base : Nat) (t : Text) : Option Int := do
  let codes := Text.trim Text.isAsciiBlank (← t.mapM fun p => Text.DigitSet.fold .allScripts p.val)
  let (negative, codes) := match codes with
    | 0x2D :: rest => (true, rest)
    | 0x2B :: rest => (false, rest)
    | _ => (false, codes)
  let codes := match codes with
    | 0x30 :: x :: rest =>
      let marked := (base = 16 && (x = 0x78 || x = 0x58)) || (base = 8 && (x = 0x6F || x = 0x4F)) ||
        (base = 2 && (x = 0x62 || x = 0x42))
      match marked, rest with
      | true, 0x5F :: rest => rest
      | true, rest => rest
      | false, _ => codes
    | _ => codes
  let groups := Text.pieces (· == 0x5F) codes
  if groups.any List.isEmpty then none
  let n ← Text.digitsValue? base groups.flatten
  return if negative then -n else n

/-- The integer that an argument denotes: its start tells the base. -/
def integer? (t : Text) : Option Int :=
  match t with
  | ⟨0x30, _⟩ :: ⟨x, _⟩ :: rest =>
    if x = 0x78 || x = 0x58 then integerIn? 16 t
    else if x = 0x62 || x = 0x42 then integerIn? 2 (if rest.isEmpty then "0" else rest)
    else integerIn? 8 t
  | ⟨0x30, _⟩ :: _ => integerIn? 8 t
  | _ => integerIn? 10 t

def Kind.take (name : Text) (v : Value) : Kind → Except Complaint Value
  | .text => .ok v
  | .integer =>
    match v with
    | .text t =>
      match integer? t with
      | some n => .ok (.int n)
      | none => .error (.integer name v)
    | _ => .error (.defect .kind)
  | .choice choices =>
    if choices.any fun c => v == Value.str c then .ok v else .error (.choice name v choices)
  | .json =>
    match v with
    | .text t =>
      match decode t with
      | .ok v => .ok v
      | .error _ => .error (.json name)
    | _ => .error (.defect .kind)

end AddonBuilder.CommandLine
