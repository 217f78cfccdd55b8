import AddonBuilder.Defect
import AddonBuilder.Json.Encoding
import AddonBuilder.Json.Shown

/-!
# Reports of measuring tools

A measuring tool prints a report.
-/

namespace AddonBuilder.Measure

open Json

/-- A failure, by its kind and message. -/
structure Failure where
  kind : String
  message : Text := []
deriving Repr, DecidableEq

def Failure.shown (f : Failure) : Text := f.kind ++ ": " ++ f.message

/-- Everything the tool leaves behind. -/
structure Report where
  printed : Text := []
  /-- What was written beside the report. -/
  complaints : Text := []
  /-- How often the way to a failure was written out. -/
  traces : Nat := 0
  /-- The steps taken outside the tool. -/
  steps : List Value := []
  files : Assoc String Text := []

/-- How a task ends before its end. -/
inductive Ending where
  | exit (code : Int)
  | failed (f : Failure)

/-- Work that writes a report. -/
abbrev Task := ExceptT Ending (StateM Report)

namespace Task

def fail {α : Type} (kind : String) (message : Text := []) : Task α := throw (.failed ⟨kind, message⟩)

def ofExcept {α : Type} (e : Except Failure α) : Task α :=
  match e with
  | .ok a => return a
  | .error f => throw (.failed f)

def caught {α : Type} (t : Task α) : Task (Except Failure α) :=
  tryCatch (.ok <$> t) fun ending => match ending with
    | .failed f => return .error f
    | .exit code => throw (.exit code)

def print (t : Text) : Task Unit := modify fun r => { r with printed := r.printed ++ t ++ "\n" }

def complain (t : Text) : Task Unit := modify fun r => { r with complaints := r.complaints ++ t }

def trace : Task Unit := modify fun r => { r with traces := r.traces + 1 }

def note (v : Value) : Task Unit := modify fun r => { r with steps := r.steps ++ [v] }

def writeFile (path : String) (t : Text) : Task Unit :=
  modify fun r => { r with files := Assoc.insert r.files path t }

def run (t : Task Unit) : Option Ending × Report :=
  match StateT.run (ExceptT.run t) {} with
  | (.ok (), report) => (none, report)
  | (.error ending, report) => (some ending, report)

end Task

def line (v : Value) : Text := (v.encode {}).toOption.getD []

def fields (l : List (String × Value)) : Value := .object (l.map fun (k, v) => (Text.ofString k, v))

/-- The kind of a failure, without differences that nobody who reads a report cares about. -/
def Failure.broadKind (f : Failure) : String :=
  match f.kind with
  | "AttributeError" => "TypeError"
  | "FileNotFoundError" => "OSError"
  | kind => kind

/-- The result of a tool as a table: what it printed, how it ended if it ended early, and what else there is. -/
def outcome (result : Option Ending × Report) : List (String × Value) :=
  let (ending, r) := result
  let given (key : String) (isThere : Bool) (v : Value) := if isThere then [(key, v)] else []
  [("stdout", .text r.printed)] ++
    (match ending with
      | some (.exit code) => [("exit", .int code)]
      | some (.failed f) => [("error", Value.str f.broadKind)]
      | none => []) ++
    given "stderr" (!r.complaints.isEmpty) (.text r.complaints) ++
    given "tracebacks" (r.traces ≠ 0) (.int r.traces) ++
    given "log" (!r.steps.isEmpty) (.array r.steps)

end AddonBuilder.Measure
