import AddonBuilder.Measure.Frame
import AddonBuilder.Measure.Recording

/-!
# The table of files

The coverage of a round is printed as a table with a row for each file, the least covered ones
first, and a row with the totals.
-/

namespace AddonBuilder.Measure

open Json Field Assoc Text

/-- Whether a letter may stand in a name: a letter or a digit of ASCII, an underscore, or anything printable
outside ASCII. -/
def isNameLetter (c : Char) : Bool :=
  c.isAlphanum || c = '_' || (0x80 ≤ c.toNat && isPrintable c.toNat)

/-- Whether a line starts the definition of a benchmark; `rest` is the text from the start of the line on. -/
def definesBenchmark (rest : List Char) : Bool :=
  match dropStart? "def bench_".toList rest with
  | none => false
  | some after =>
    let name := after.takeWhile isNameLetter
    !name.isEmpty && ((after.drop name.length).dropWhile blankChar).head? = some '('

def benchmarkCount (source : List Char) : Nat :=
  let rec from_ (atStart : Bool) : List Char → Nat
    | [] => 0
    | c :: rest => (if atStart && definesBenchmark (c :: rest) then 1 else 0) + from_ (c = '\n') rest
  from_ true source

/-- The line of one file. -/
structure Row where
  name : String
  statements : Int
  missed : Int
  percent : Binary64
  missing : Text

/-- A whole number in a field, zero if the field is missing. -/
def wholeIn (m : Members) (key : Text) : Except Failure Int :=
  ((get? m key).map toInt).getD (.ok 0)

def numberIn (m : Members) (key : Text) : Except Failure Binary64 :=
  ((get? m key).map toFloat).getD (.ok (Binary64.zero false))

def missingLines (v : Option Value) : Text :=
  match v with
  | some (.array l) =>
    intercalate "," ((l.take 12).map Value.plain) ++ if 12 < l.length then "…" else ""
  | _ => []

def Row.ofFile (path : Text) (v : Value) : Except Failure Row := do
  let m ← table v
  let summary ← tableOrEmpty (get? m "summary")
  let name := Path.relative Frame.project (Frame.resolved path.display)
  return {
    name := String.ofList (name.toList.take 60)
    statements := ← wholeIn summary "num_statements"
    missed := ← wholeIn summary "missing_lines"
    percent := ← numberIn summary "percent_covered"
    missing := missingLines (get? m "missing_lines") }

/-- Whether a row comes before another: less covered, or as much and larger. -/
def Row.before (a b : Row) : Bool :=
  if a.percent.lt b.percent then true
  else if b.percent.lt a.percent then false
  else b.statements ≤ a.statements

def counts (statements missed : Int) (percent : Binary64) : Text :=
  padLeft 5 (ofInt statements) ++ "  " ++ padLeft 4 (ofInt missed) ++ "  " ++
    padLeft 4 (percent.fixed 0) ++ "%"

/-- How much of the statements was run. -/
structure Coverage where
  percent : Binary64
  covered : Int
  statements : Int
  rows : List Row
  failures : Members

def Coverage.ofValue (v : Value) : Except Failure Coverage := do
  let m ← table v
  let totals ← tableOrEmpty (get? m "totals")
  let files ← tableOrEmpty (get? m "files")
  let about ← tableOrEmpty (get? m "meta")
  let percent ← numberIn totals "percent_covered"
  let covered ← wholeIn totals "covered_lines"
  let statements ← wholeIn totals "num_statements"
  let failures ← tableOrEmpty (get? about "_pti_bench_errors")
  let rows ← files.mapM fun (path, v) => Row.ofFile path v
  return ⟨percent, covered, statements, (rows.mergeSort Row.before).take 120, failures⟩

def Coverage.print (c : Coverage) : Task Unit := do
  let width := c.rows.foldl (fun w row => max w row.name.length) 4
  let rule : Text := List.replicate (width + 42) 0x2D
  Task.print (padRight width "Name" ++ "  Stmts  Miss  Cover  Missing")
  Task.print rule
  for row in c.rows do
    Task.print (padRight width row.name ++ "  " ++ counts row.statements row.missed row.percent ++ "  " ++ row.missing)
  Task.print rule
  Task.print (padRight width "TOTAL" ++ "  " ++ counts c.statements (c.statements - c.covered) c.percent)
  if !c.failures.isEmpty then
    Task.print ("\n" ++ ofNat c.failures.length ++ " bench error(s):")
    for (name, v) in c.failures.take 8 do
      Task.print ("  " ++ name ++ ": " ++ v.plain)

/-- Measures the coverage.  If that fails, its output is all that is reported. -/
def measureCoverage (r : Recorded) : Task Coverage := do
  let output ← start r "cov_runner" "/repo/_pti_cov_runner.py" 600
  Task.complain output.complaints
  let report := if output.code = 0 then r.get? "coverage" else none
  match report with
  | none =>
    Task.print ("coverage measurement failed (exit " ++ ofInt output.code ++ ")")
    Task.print output.printed
    throw (.exit (if output.code = 0 then 1 else output.code))
  | some (.text t) =>
    match Standard.decode t with
    | .ok v => Task.ofExcept (Coverage.ofValue v)
    | .error m => Task.fail "JSONDecodeError" m
  | some v => Task.ofExcept (Coverage.ofValue v)

end AddonBuilder.Measure
