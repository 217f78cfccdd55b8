import AddonBuilder.Json.Standard
import AddonBuilder.Measure.Frame
import AddonBuilder.Measure.Trial

/-!
# Running benchmarks under line coverage

The tool runs all benchmarks while the lines that are reached are recorded.
-/

namespace AddonBuilder.Measure.LineCoverage

open Json Measure.Task

def failures : List Trial → Task Members
  | [] => return []
  | t :: rest => do
    match t.call [] 0 with
    | .error f =>
      trace
      return (t.name, .text f.shown) :: (← failures rest)
    | .ok _ => failures rest

def argument (args : List Value) (i : Nat) : Task Text :=
  match args[i]? with
  | some (.text t) => return t
  | _ => fail "IndexError"

def total (totals : Value) (key : Text) : Task Value :=
  match totals.get? key with
  | some v => return v
  | none => fail "KeyError"

def extended (report : Members) (failed : Members) (count : Nat) : Except Failure Members := do
  let about ← match Assoc.get? report "meta" with
    | some v => Field.table v
    | none => .ok []
  let about := Assoc.insert (Assoc.insert about "_pti_bench_errors" (.object failed)) "_pti_n_benches" (.int count)
  return Assoc.insert report "meta" (.object about)

def tool (run : Value) : Task Unit := do
  let args := match run.get? "args" with
    | some (.array l) => l
    | _ => []
  let source ← argument args 0
  let _ ← argument args 1
  let target ← argument args 2
  let omitted ← match Standard.decode (← argument args 3) with
    | .ok v => pure v
    | .error m => fail "JSONDecodeError" m
  note (.array [Value.str "Coverage", fields [
    ("branch", .bool false), ("config_file", .bool false), ("data_file", .null), ("omit", omitted),
    ("source", .array [Value.str (Frame.resolved source.display)])]])
  note (Value.str "start")
  let (failed, count) ← match failureOfPair? (run.get? "import_error") with
    | some f => do
      trace
      pure ([(("<import>" : Text), Value.text f.shown)], 0)
    | none => do
      let attrs := match run.get? "benches" with
        | some (.object m) => m
        | _ => []
      let trials := Trial.ofModule attrs
      pure (← failures trials, trials.length)
  note (Value.str "stop")
  note (.array [Value.str "json_report", .text target, .bool true])
  match run.get? "report" with
  | none => fail "FileNotFoundError"
  | some v =>
    let report ← ofExcept (Field.table v)
    let report ← ofExcept (extended report failed count)
    writeFile target.display (line (.object report))
    let totals ← match Assoc.get? report "totals" with
      | some v => pure v
      | none => fail "KeyError"
    let percent ← ofExcept (Field.toFloat (← total totals "percent_covered"))
    let covered ← total totals "covered_lines"
    let statements ← total totals "num_statements"
    print ("coverage: " ++ Text.ofString (percent.fixed 1) ++ "% (" ++ covered.plain ++ "/" ++
      statements.plain ++ " stmts, " ++ Text.ofNat count ++ " benches, " ++ Text.ofNat failed.length ++ " errors)")

end AddonBuilder.Measure.LineCoverage
