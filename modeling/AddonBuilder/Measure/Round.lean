import AddonBuilder.Measure.FileTable
import AddonBuilder.Measure.Judgement
import AddonBuilder.Measure.Shares

/-!
# Rounds of measurement

A round measures the line coverage of the benchmarks, their shares of time in the project, and how
far they check themselves.
-/

namespace AddonBuilder.Measure.Round

open Json Text

/-- Where the coverage is high enough for a round to be the last. -/
def leastCoverage : Binary64 := Binary64.ofInt 60

/-- How many rounds without a better result are enough. -/
def patience : Nat := 3

/-- The first of the smallest numbers of a list, with its index. -/
def best : List (Value × Binary64) → Option (Value × Binary64 × Nat)
  | [] => none
  | (v, x) :: rest =>
    match best rest with
    | some (w, y, i) => if y.lt x then some (w, y, i + 1) else some (v, x, 0)
    | none => some (v, x, 0)

/-- Why no further round is needed, if none is: `history` has how many shares were too small in each round, this
one included. -/
def stopReason? (history : List (Value × Binary64)) : Option Text := do
  let (_, last) ← history.getLast?
  if last.isZero then return "0 below"
  let (value, _, index) ← best history
  let rounds := history.length - 1 - index
  if rounds < patience then none
  else
    let reason : Text := "no improvement in " ++ ofNat rounds ++ " rounds; best " ++ value.plain ++ " below"
    return reason

def logLines (log : Option Text) : List String :=
  match log with
  | none => []
  | some t => (linesOf t.display).filter fun l => !(trimString l).isEmpty

def earlier (rounds : List Members) (key : Text) : List (Value × Binary64) :=
  (rounds.filterMap fun m => Assoc.get? m key).filterMap fun v => match v with
    | .null => none
    | v => (Field.toFloat v).toOption.map fun x => (v, x)

def logged (lines : List String) : Except Failure (List Members) :=
  lines.mapM fun (l : String) => match Standard.decode l with
    | .ok v => Field.table v
    | .error m => .error ⟨"JSONDecodeError", m⟩

def logFile : String := "/repo/.pti_checkpoint.jsonl"

/-- One round.  `log` is the log before it. -/
def tool (log : Option Text) (r : Recorded) : Task Unit := do
  let reading (i : Nat) : Binary64 := match r.get? "clock" with
    | some (.array l) => ((l[i]?).bind fun v => (Field.toFloat v).toOption).getD (Binary64.zero false)
    | _ => Binary64.zero false
  let coverage ← measureCoverage r
  let duration := (reading 1).sub (reading 0)
  coverage.print
  let benchmarks := ((fileText? r Frame.benchmarks).map fun t => benchmarkCount t.display.toList).getD 0
  let shares ← measureShares r
  shares.print
  let (judged, modified) ← measureVerdicts r
  printVerdicts judged modified
  let faulty := (judged.filter fun j => j.verdict ≠ .fine).length
  let broken := isBroken r logFile
  let lines := if broken then [] else logLines log
  let number := lines.length + 1
  let ofShares : Text := if shares.percents.isEmpty then [] else
    ", " ++ ofNat shares.below ++ "/" ++ ofNat shares.valid.length ++ " below repo_time 45%"
  let ofVerdicts : Text := if judged.isEmpty then [] else
    ", " ++ ofNat faulty ++ "/" ++ ofNat judged.length ++ " not self-checking"
  Task.print ("\n[round " ++ ofNat number ++ ": " ++ ofNat benchmarks ++ " benches, " ++
    ofString (coverage.percent.fixed 1) ++ "% covered" ++ ofShares ++ ofVerdicts ++
    ", measured in " ++ ofString (duration.fixed 1) ++ "s]")
  match logged lines with
  | .error _ => return ()
  | .ok rounds =>
    if broken then return ()
    let now := reading 2
    let before := match rounds.getLast?.bind fun m => Assoc.get? m "ts" with
      | some v => (Field.toFloat v).toOption.getD now
      | none => now
    let entry := fields [ ("round", .int number), ("ts", .float now),
      ("wall_since_prev_s", .float ((now.sub before).roundTo 2)),
      ("coverage_pct", .float coverage.percent),
      ("covered_lines", .int coverage.covered),
      ("num_statements", .int coverage.statements),
      ("n_bench_fns", .int benchmarks),
      ("n_bench_errors", .int coverage.failures.length),
      ("cov_measure_s", .float (duration.roundTo 3)),
      ("repo_time_pct", .object (shares.percents.map fun (name, x) => (name, .float x))),
      ("n_below_repo_time", (shares.below?.map fun (n : Nat) => Value.int n).getD .null),
      ("semcheck", .object (judged.map fun j => (j.name, Value.str j.verdict.name))),
      ("n_not_self_checking", .int faulty)]
    Task.writeFile logFile (line entry ++ "\n")
    match shares.below? with
    | none => return ()
    | some n =>
      if coverage.percent.lt leastCoverage then return ()
      let history := earlier rounds "n_below_repo_time" ++ [(.int n, Binary64.ofInt n)]
      match stopReason? history with
      | some reason =>
        Task.print ("\n>>> STOP: repo_time converged (" ++ reason ++ "). Finalize microbench.py now. <<<")
      | none => return ()

end AddonBuilder.Measure.Round
