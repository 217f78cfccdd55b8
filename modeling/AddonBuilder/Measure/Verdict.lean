import AddonBuilder.Measure.Field

/-!
# Verdicts on benchmarks

From what is reported of a benchmark follows whether its result can be trusted, and if not, the
first of the reasons why.
-/

namespace AddonBuilder.Measure

open Json Assoc

/-- What is held against a trial. -/
inductive Verdict where
  | fine
  | returnsNothing
  | unstable
  | returnsInput
  | littleOwnTime
  | tooFast
  | sameForAllArguments
  | projectModified
  | failing
deriving DecidableEq, Repr

namespace Verdict

def name : Verdict → String
  | fine => "ok"
  | returnsNothing => "returns-none"
  | unstable => "unstable"
  | returnsInput => "returns-input"
  | littleOwnTime => "low-repo-time"
  | tooFast => "too-fast"
  | sameForAllArguments => "param-invariant"
  | projectModified => "repo-modified"
  | failing => "error"

/-- What can be done, for the verdicts that need an explanation. -/
def advice : List (Verdict × String) := [
  (returnsNothing, "run() has no return — collect and return the call results"),
  (unstable, "seed RNG in setup; avoid time/uuid/id in the return"),
  (returnsInput, "return repo output, not the parameter value"),
  (littleOwnTime, "<50% of run() time is in repo code — move glue to setup"),
  (sameForAllArguments, "return something derived from run()'s work, not setup"),
  (projectModified, "revert edits to repo files (git checkout -- <path>)")]

def median (l : List Binary64) : Option Binary64 :=
  let sorted := l.mergeSort fun a b => !b.lt a
  let half := sorted.length / 2
  if sorted.length % 2 = 1 then sorted[half]?
  else match sorted[half - 1]?, sorted[half]? with
    | some a, some b => (a.add b).div? (Binary64.ofInt 2)
    | _, _ => none

/-- What was measured of a trial. -/
structure Findings where
  kind : Text
  ownShare : Option Binary64
  milliseconds : Option Binary64
  /-- The fingerprints of two runs. -/
  runs : List Value
  /-- The fingerprints for each set of arguments. -/
  results : List Value
  args : List Value
  failed : Bool

def listIn (m : Members) (key : Text) : List Value :=
  match get? m key with
  | some (.array l) => l
  | _ => []

def numbersIn (m : Members) (key : Text) : Except Failure (List Binary64) := do
  (values (← Field.tableOrEmpty (get? m key))).mapM Field.toFloat

def Findings.ofValue (v : Value) : Except Failure Findings := do
  let m ← Field.table v
  let milliseconds ← numbersIn m "repo_tt_ms"
  let ownShare ← numbersIn m "repo_frac"
  let results ← Field.tableOrEmpty (get? m "fp_by_param")
  return {
    kind := ((get? m "ret_type").map Value.plain).getD "?"
    ownShare := median ownShare
    milliseconds := median milliseconds
    runs := listIn m "fp_stable"
    results := values results
    args := listIn m "param_fps"
    failed := contains m "error" }

def allEqual : List Value → Bool
  | [] => true
  | v :: rest => rest.all (v == ·)

def of (modified : Bool) (f : Findings) : Verdict :=
  let half := Binary64.ofDecimal false 5 (-1)
  let below (x : Option Binary64) (least : Binary64) := (x.map (·.lt least)).getD false
  if modified then projectModified
  else if f.failed then failing
  else if f.kind = Text.ofString "NoneType" then returnsNothing
  else if !allEqual f.runs then unstable
  else if (f.runs ++ f.results).any fun v => f.args.any (v == ·) then returnsInput
  else if below f.ownShare half then littleOwnTime
  else if below f.milliseconds (Binary64.ofInt 1) then tooFast
  else if 1 < f.results.length && allEqual f.results then sameForAllArguments
  else fine

end Verdict

end AddonBuilder.Measure
