import AddonBuilder.Json.Standard
import AddonBuilder.Measure.Field

/-!
# What is recorded of a round

A round of measurement runs other tools and reads some files.
-/

namespace AddonBuilder.Measure

open Json

/-- What is kept of a result. -/
abbrev Recorded := Value

/-- What a tool gave: exit code, output, and what it wrote beside it. -/
structure Output where
  code : Int := 0
  printed : Text := []
  complaints : Text := []

/-- Runs a tool, whose command and time limit are named if it runs too long. -/
def start (r : Recorded) (name : String) (command : String) (limit : Nat) : Task Output := do
  Task.note (Value.str name)
  match (r.get? "procs").bind fun p => p.get? name with
  | some (.text t) =>
    if t = Text.ofString "timeout" then
      Task.fail "TimeoutExpired" ("Command '['python3', '" ++ Text.ofString command ++ "']' timed out after " ++
        Text.ofNat limit ++ " seconds")
    else Task.fail "FileNotFoundError" "[Errno 2] No such file or directory: 'python3'"
  | some v =>
    let text (key : Text) : Text := match v.get? key with
      | some (.text t) => t
      | some (.object m) => line (.object m)
      | _ => []
    let code := match v.get? "code" with
      | some (.int n) => n
      | _ => 0
    return ⟨code, text "out", text "err"⟩
  | none => return {}

/-- Whether a file is there but cannot be opened. -/
def isBroken (r : Recorded) (path : String) : Bool :=
  match (r.get? "files").bind fun f => f.get? "broken" with
  | some (.array l) => l.any (· == Value.str path)
  | _ => false

def fileText? (r : Recorded) (path : String) : Option Text :=
  if isBroken r path then none
  else match (r.get? "files").bind fun f => f.get? path with
    | some (.text t) => some t
    | _ => none

def hasTool (r : Recorded) (path : String) : Bool :=
  match (r.get? "files").bind fun f => f.get? path with
  | some .null => false
  | _ => true

/-- The object on the last line of an output; no output gives none. -/
def lastObject (output : Text) : Except Failure (Option Members) :=
  match ((Text.linesOf (Text.trimString output.display)).getLast?).filter (!·.isEmpty) with
  | none => .ok none
  | some last =>
    match Standard.decode last with
    | .ok v => (Field.table v).map some
    | .error m => .error ⟨"JSONDecodeError", m⟩

def complainOf (tool : String) (f : Failure) : Task Unit :=
  Task.complain ("[" ++ Text.ofString tool ++ " runner: " ++ f.shown ++ "]\n")

def padRight (width : Nat) (t : Text) : Text := t ++ List.replicate (width - t.length) 0x20

def padLeft (width : Nat) (t : Text) : Text := List.replicate (width - t.length) 0x20 ++ t

end AddonBuilder.Measure
