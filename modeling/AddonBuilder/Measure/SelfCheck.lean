import AddonBuilder.Measure.Frame
import AddonBuilder.Measure.Trial

/-!
# Self-checking benchmarks

A benchmark should give the same result twice, results that depend on its arguments, and results
that the project makes.
-/

namespace AddonBuilder.Measure.SelfCheck

open Json

def label (args : Members) : Text :=
  Text.intercalate "," (args.map fun (k, v) => k ++ "=" ++ v.shown)

def timeIn (p : Profile) (counts : String → Bool) : Binary64 :=
  Profile.sum ((p.rows.filter fun r => counts r.1).map Prod.snd)

def part (p : Profile) (time : Binary64) : Value := .float ((Profile.quotient time p.divisor).roundTo 3)

/-- The profile of each trial. -/
abbrev Calls := List (Text × Profile)

def about (calls : Calls) (f : Profile → Value) : Value := .object (calls.map fun (name, p) => (name, f p))

def argumentPrints (parameters : List Members) : List Value :=
  (parameters.flatMap Assoc.values).filterMap fun v =>
    ((Notation.sample v).toOption.map fun s => Value.str s.fingerprint)

def entry (t : Trial) (profiles : List Profile) : Except Failure Value := do
  let first ← t.call [] 0
  let second ← t.call [] 1
  let results ← t.parameters.mapIdxM fun i args => do
    return (label args, Value.str (← t.call args (i + 2)).fingerprint)
  let names : List Text := "<default>" :: t.parameters.map label
  let calls : Calls := names.mapIdx fun i name => (name, (profiles[i]?).getD {})
  let thousand := Binary64.ofInt 1000
  return fields [ ("ret_type", Value.str first.kind),
    ("fp_stable", .array [Value.str first.fingerprint, Value.str second.fingerprint]),
    ("fp_by_param", .object results),
    ("repo_tt_ms", about calls fun p => .float (((timeIn p Frame.isOwn).mul thousand).roundTo 3)),
    ("repo_frac", about calls fun p => part p (timeIn p Frame.isOwn)),
    ("ext_frac", about calls fun p => part p (timeIn p Frame.isCompiled)),
    ("param_fps", .array (argumentPrints t.parameters))]

/-- What is reported of each benchmark, taking profiles for each that does not fail. -/
def measure : List Trial → List Profile → Task Members
  | [], _ => return []
  | t :: rest, profiles => do
    match entry t profiles with
    | .error f =>
      Task.trace
      return (t.name, fields [("error", .text f.shown)]) :: (← measure rest profiles)
    | .ok v => return (t.name, v) :: (← measure rest (profiles.drop (t.parameters.length + 1)))

def tool (run : Value) : Task Unit := do
  match failureOfPair? (run.get? "import_error") with
  | some f =>
    Task.print (line (fields [("_import_error", .text f.shown)]))
    throw (.exit 0)
  | none =>
    let attrs := match run.get? "benches" with
      | some (.object m) => m
      | _ => []
    let entries ← measure (Trial.ofModule attrs) (Profile.recorded run)
    Task.print (line (fields [("semcheck", .object entries)]))

end AddonBuilder.Measure.SelfCheck
