import AddonBuilder.Measure.Frame
import AddonBuilder.Measure.Trial

/-!
# Shares of time

For every benchmark the tool prints which share of its time is spent in files of the project, and
the two other places where most time is spent.
-/

namespace AddonBuilder.Measure.TimeShare

open Json Binary64

def share (p : Profile) (part : Binary64) : Value :=
  .float ((Profile.quotient ((ofInt 100).mul part) p.divisor).roundTo 1)

def own (p : Profile) : Binary64 :=
  Profile.sum ((p.rows.filter fun r => Frame.isOwn r.1).map Prod.snd)

def elsewhere (p : Profile) : Assoc String Binary64 :=
  (p.rows.filter fun r => !Frame.isOwn r.1).foldl
    (fun found (path, time) =>
      let label := Frame.label path
      Assoc.insert found label (((Assoc.get? found label).getD (zero false)).add time)) []

/-- Whether a place comes before another: more time, or as much and a later name. -/
def before (a b : String × Binary64) : Bool :=
  if b.2.lt a.2 then true else if a.2.lt b.2 then false else Text.le b.1 a.1

/-- The two places outside the project where most time is spent. -/
def hottest (p : Profile) : Value :=
  let places := (elsewhere p).filter fun e => (zero false).lt e.2
  .array (((places.mergeSort before).take 2).map fun (label, time) => .array [share p time, Value.str label])

/-- The shares and places of each benchmark, taking a profile for each that does not fail. -/
def measure : List Trial → List Profile → Task (Members × Members)
  | [], _ => return ([], [])
  | t :: rest, profiles => do
    match t.call [] 0 with
    | .error f =>
      Task.trace
      let (shares, places) ← measure rest profiles
      let failed : Value := .array [.array [.float (zero false), Value.str ("<" ++ f.kind ++ ">")]]
      return ((t.name, .float (ofInt (-1))) :: shares, (t.name, failed) :: places)
    | .ok _ =>
      let p := (profiles.head?).getD {}
      let (shares, places) ← measure rest (profiles.drop 1)
      return ((t.name, share p (own p)) :: shares, (t.name, hottest p) :: places)

def tool (run : Value) : Task Unit := do
  match failureOfPair? (run.get? "import_error") with
  | some f =>
    Task.print (line (fields [("_import_error", .text f.shown)]))
    throw (.exit 0)
  | none =>
    let attrs := match run.get? "benches" with
      | some (.object m) => m
      | _ => []
    let (shares, places) ← measure (Trial.ofModule attrs) (Profile.recorded run)
    Task.print (line (fields [("repo_time_pct", .object shares), ("hot_ext", .object places)]))

end AddonBuilder.Measure.TimeShare
