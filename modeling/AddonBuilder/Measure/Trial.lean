import AddonBuilder.Benchmark.Catalogue
import AddonBuilder.Measure.Field
import AddonBuilder.Measure.Notation

/-!
# Benchmarks under measurement

The measuring tools call every benchmark of a module in the order of the names.
-/

namespace AddonBuilder.Measure

open Json Assoc Binary64

/-- What a trial does when it is called. -/
inductive Act where
  | fail (f : Failure)
  | overrun
  | echo (name : Text)
  /-- Gives the values of a list in turn, and starts again after the last. -/
  | turns (values : List Value)
  | give (v : Value)
  | work (name : String) (args : Members)

/-- A function to be judged. -/
structure Trial where
  name : Text
  act : Act
  /-- The arguments with which it is to be called besides its defaults. -/
  parameters : List Members := []

namespace Trial

def failureOf : Defect → Failure
  | .index => ⟨"IndexError", "list index out of range"⟩
  | .key => ⟨"KeyError", []⟩
  | .value => ⟨"ValueError", []⟩
  | _ => ⟨"TypeError", []⟩

def actOf (record : Members) : Act :=
  let text (key : Text) := match get? record key with
    | some (.text t) => t
    | _ => []
  match get? record "raise" with
  | some (.text kind) =>
    let message := text "message"
    .fail ⟨kind.display, if kind.display = "KeyError" then Text.quoted message else message⟩
  | _ =>
    if ((get? record "alarm").map Value.isGiven).getD false then .overrun
    else match get? record "echo", get? record "seq", get? record "microbench" with
      | some (.text name), _, _ => .echo name
      | _, some (.array values), _ => .turns values
      | _, _, some (.text name) =>
        .work name.display (match get? record "args" with
          | some (.object m) => m
          | _ => [])
      | _, _, _ => .give ((get? record "value").getD .null)

def ofAttribute? (name : Text) : Value → Option Trial
  | .object record =>
    if Text.beginsWith name.display "bench_" then
      let parameters := match get? record "params" with
        | some (.array l) => l.filterMap fun v => match v with
          | .object m => some m
          | _ => none
        | _ => []
      some { name, act := actOf record, parameters }
    else none
  | _ => none

/-- The benchmarks among the attributes of a module, in the order of their names. -/
def ofModule (attrs : Members) : List Trial :=
  (attrs.filterMap fun (name, v) => ofAttribute? name v).mergeSort fun a b => Text.le a.name b.name

/-- What a call with some arguments gives; `turn` counts the calls before it. -/
def call (t : Trial) (args : Members) (turn : Nat) : Except Failure Sample :=
  let given (v : Value) := (Notation.sample v).mapError failureOf
  match t.act with
  | .fail f => .error f
  | .overrun => .error ⟨"TimeoutError", []⟩
  | .echo name => given ((get? args name).getD (.int 0))
  | .turns values => given ((values[turn % max 1 values.length]?).getD .null)
  | .give v => given v
  | .work name defaults =>
    match Benchmark.named? name with
    | some b => ((b.run (merge defaults args)).map Sample.ofDatum).mapError failureOf
    | none => .error ⟨"AttributeError", []⟩

end Trial

def failureOfPair? : Option Value → Option Failure
  | some (.array [.text kind, .text message]) =>
    some ⟨kind.display, if kind.display = "KeyError" then Text.quoted message else message⟩
  | _ => none

/-- The time taken in all, and that of each function. -/
structure Profile where
  total : Binary64 := zero false
  rows : List (String × Binary64) := []

namespace Profile

def seconds (v : Option Value) : Binary64 :=
  match v.map Field.toFloat with
  | some (.ok x) => x
  | _ => zero false

def ofValue (v : Value) : Profile where
  total := seconds (v.get? "total")
  rows := match v.get? "rows" with
    | some (.array rows) => rows.filterMap fun row => match row with
      | .array [.text path, own] => some (path.display, seconds (some own))
      | _ => none
    | _ => []

def recorded (run : Value) : List Profile :=
  match run.get? "profiles" with
  | some (.array l) => l.map ofValue
  | _ => []

/-- The time by which shares are divided, which is never zero. -/
def divisor (p : Profile) : Binary64 :=
  let least := ofDecimal false 1 (-9)
  if p.total.lt least then least else p.total

def sum (l : List Binary64) : Binary64 := l.foldl add (zero false)

def quotient (x y : Binary64) : Binary64 := (x.div? y).getD nan

end Profile

end AddonBuilder.Measure
