import AddonBuilder.CommandLine.Switch

/-!
# Reading arguments

Switches and words may stand in any order; `--` ends the switches.
-/

namespace AddonBuilder.CommandLine

open Json Assoc

/-- How the reading of a command line ends. -/
inductive Ending where
  /-- All arguments are read, and these are words. -/
  | words (l : List Value)
  | help
  | version
  | wrong (message : Text)
  | flawed (d : Defect)

/-- The targets when the reading ends, and how it ends. -/
structure Arguments where
  values : Members
  ending : Ending

def Complaint.ending : Complaint → Ending
  | .defect d => .flawed d
  | c => .wrong c.message

/-- The values of the targets before any argument is read.  The given ones replace those of the
switches, and a text among them is read as the switch reads it. -/
def Program.initialValues (p : Program) (given : Members) : Except Complaint Members :=
  let targets := p.allSwitches.filter fun s => s.target ≠ ""
  let start : Members := ofList (targets.map fun s => (Text.ofString s.target, s.initial))
  targets.foldlM
    (fun values s =>
      match get? values s.target, s.kind? with
      | some (.text t), some kind => do
        return insert values s.target (← kind.take s.longName (.text t))
      | _, _ => return values)
    (merge start given)

def Program.long (p : Program) (name : Text) : Except Ending Switch :=
  match p.allSwitches.find? fun s => s.longName == name with
  | some s => .ok s
  | none =>
    match p.allSwitches.filter fun s => name.isPrefixOf s.longName with
    | [] => .error (.wrong ("no such option: " ++ name))
    | [s] => .ok s
    | several =>
      let names := (several.map Switch.longName).mergeSort Text.le
      .error (.wrong ("ambiguous option: " ++ name ++ " (" ++ commaSeparated names ++ "?)"))

def Program.short (p : Program) (c : CodePoint) : Except Ending Switch :=
  match p.allSwitches.find? fun s => s.shortName? == some ("-" ++ [c]) with
  | some s => .ok s
  | none => .error (.wrong ("no such option: -" ++ [c]))

/-- The targets after a switch that takes no value. -/
def Switch.turn (s : Switch) (values : Members) : Except Ending Members :=
  match s.effect with
  | .set b => .ok (insert values s.target (.bool b))
  | .help => .error .help
  | .version => .error .version
  | _ => .ok values

def Switch.give (s : Switch) (kind : Kind) (name : Text) (v : Value) (values : Members) :
    Except Ending Members := do
  let v ←
    match v with
    | .null => pure v
    | v => (kind.take name v).mapError Complaint.ending
  match s.effect with
  | .append =>
    match (get? values s.target).getD .null with
    | .null => return insert values s.target (.array [v])
    | .array l => return insert values s.target (.array (l ++ [v]))
    | _ => throw (.flawed .kind)
  | _ => return insert values s.target v

/-- A switch that waits for its value, by the name it was called. -/
structure Waiting where
  switch : Switch
  kind : Kind
  name : Text

/-- The targets after short names that share a hyphen, and the switch that waits for the next
argument; or the targets before the name at which the reading ends. -/
def Program.cluster (p : Program) :
    List CodePoint → Members → Except (Ending × Members) (Members × Option Waiting)
  | [], values => .ok (values, none)
  | c :: rest, values => do
    let s ← (p.short c).mapError (·, values)
    match s.kind?, rest with
    | none, rest => cluster p rest (← (s.turn values).mapError (·, values))
    | some kind, [] => return (values, some ⟨s, kind, "-" ++ [c]⟩)
    | some kind, rest =>
      return (← (s.give kind ("-" ++ [c]) (.text rest) values).mapError (·, values), none)

/-- The targets after a long name, and the switch that waits for the next argument. -/
def Program.named (p : Program) (argument : Text) (values : Members) :
    Except Ending (Members × Option Waiting) := do
  let (name, value) := match Text.cut? "=" argument with
    | some (name, value) => (name, some value)
    | none => (argument, none)
  let s ← p.long name
  match s.kind?, value with
  | some kind, some value => return (← s.give kind s.longName (.text value) values, none)
  | some kind, none => return (values, some ⟨s, kind, s.longName⟩)
  | none, some _ => throw (.wrong (s.longName ++ " option does not take a value"))
  | none, none => return (← s.turn values, none)

/-- What an argument looks like. -/
inductive Argument where
  | word
  /-- The end of the switches. -/
  | stop
  | long (t : Text)
  | short (names : List CodePoint)
  /-- Nothing that an argument can be. -/
  | bad

def Argument.of : Value → Argument
  | .text t =>
    if t = "--" then stop
    else
      match t with
      | ⟨0x2D, _⟩ :: ⟨0x2D, _⟩ :: _ => long t
      | ⟨0x2D, _⟩ :: c :: rest => short (c :: rest)
      | _ => word
  | .array _ => word
  | _ => bad

/-- Reads arguments, with the words that were found so far. -/
def Program.readFrom (p : Program) (words : List Value) (values : Members) : List Value → Arguments
  | [] => ⟨values, .words words⟩
  | argument :: rest =>
    let continue_ (waiting : Option Waiting) (values : Members) : Arguments :=
      match waiting, rest with
      | none, rest => readFrom p words values rest
      | some w, [] => ⟨values, .wrong (w.name ++ " option requires 1 argument")⟩
      | some w, v :: rest =>
        match w.switch.give w.kind w.name v values with
        | .error ending => ⟨values, ending⟩
        | .ok values => readFrom p words values rest
    match Argument.of argument with
    | .bad => ⟨values, .flawed .kind⟩
    | .stop => ⟨values, .words (words ++ rest)⟩
    | .word => readFrom p (words ++ [argument]) values rest
    | .long t =>
      match p.named t values with
      | .error ending => ⟨values, ending⟩
      | .ok (values, waiting) => continue_ waiting values
    | .short names =>
      match p.cluster names values with
      | .error (ending, values) => ⟨values, ending⟩
      | .ok (values, waiting) => continue_ waiting values

def Program.read (p : Program) (given : Members) (args : List Value) :
    Except Complaint Arguments := do
  return p.readFrom [] (← p.initialValues given) args

end AddonBuilder.CommandLine
