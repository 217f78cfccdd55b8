import AddonBuilder.Measure.Recording
import AddonBuilder.Measure.Verdict

/-!
# The verdicts of a round

A round judges every benchmark.  No result counts while files of the project are modified.
-/

namespace AddonBuilder.Measure

open Json Task Text

def modifiedFiles (r : Recorded) : Task (List Text) := do
  match ← caught (start r "git" "git" 30) with
  | .error _ => return []
  | .ok output =>
    let lines := (linesOf output.printed.display).filter fun l => !(trimString l).isEmpty
    return lines.map fun l => ofString (String.ofList (l.toList.drop 3))

/-- A trial, what was found about it, and the verdict. -/
structure Judged where
  name : Text
  findings : Verdict.Findings
  verdict : Verdict

/-- The verdicts in the order of the reports, up to the first report that cannot be read. -/
def judge (modified : Bool) : Members → List Judged × Option Failure
  | [] => ([], none)
  | (name, v) :: rest =>
    match Verdict.Findings.ofValue v with
    | .error f => ([], some f)
    | .ok findings =>
      let (more, failure) := judge modified rest
      (⟨name, findings, Verdict.of modified findings⟩ :: more, failure)

/-- Judges the benchmarks; also gives the files that are modified. -/
def measureVerdicts (r : Recorded) : Task (List Judged × List Text) := do
  let path := "/repo/_pti_semcheck.py"
  if !hasTool r path then return ([], [])
  let modified ← modifiedFiles r
  let result ← caught do
    let output ← start r "semcheck" path 300
    complain output.complaints
    let m := (← ofExcept (lastObject output.printed)).getD []
    ofExcept (Field.tableOrEmpty (Assoc.get? m "semcheck"))
  match result with
  | .error f => do
    complainOf "semcheck" f
    return ([], modified)
  | .ok reports => do
    let (judged, failure) := judge (!modified.isEmpty) reports
    match failure with
    | some f => complainOf "semcheck" f
    | none => pure ()
    return (judged, modified)

def printVerdicts (judged : List Judged) (modified : List Text) : Task Unit := do
  if judged.isEmpty then return ()
  if !modified.isEmpty then
    print ("\n** repo modified (" ++ ofNat modified.length ++
      " file(s)) — revert these; only microbench.py is yours to edit:")
    for name in modified.take 10 do
      print ("   " ++ name)
  print "\nself-check (* = fix needed):"
  for (v, advice) in Verdict.advice do
    print ("  " ++ ofString v.name ++ ": " ++ ofString advice)
  for j in judged do
    let hundred := Binary64.ofInt 100
    let zero := Binary64.zero false
    print ("  " ++ (if j.verdict = .fine then " " else "*") ++ " " ++ padRight 32 j.name ++ " " ++
      padRight 16 j.verdict.name ++ " (" ++ j.findings.kind ++ ", repo " ++
      ofString ((hundred.mul (j.findings.ownShare.getD zero)).fixed 0) ++ "%) " ++
      ofString ((j.findings.milliseconds.getD zero).fixed 1) ++ "ms")

end AddonBuilder.Measure
