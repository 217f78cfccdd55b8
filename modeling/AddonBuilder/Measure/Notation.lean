import AddonBuilder.Defect
import AddonBuilder.Files.Path
import AddonBuilder.Json.Document
import AddonBuilder.Measure.Sample
import AddonBuilder.Text.Integer

/-!
# Samples in JSON

JSON has no sets, tuples, dates or fractions.
-/

namespace AddonBuilder.Measure.Notation

open Json Text

/-- The number that a text denotes: a decimal, an infinity or not a number. -/
def number (s : String) : Binary64 :=
  match s with
  | "nan" => Binary64.nan
  | "inf" => Binary64.infinity false
  | "-inf" => Binary64.infinity true
  | _ => Lexeme.toBinary64 s

def hexBytes? : List Char → Option Bytes
  | [] => some []
  | [_] => none
  | a :: b :: rest => do
    let high ← digitValue? a.toNat
    let low ← digitValue? b.toNat
    if 16 ≤ high || 16 ≤ low then none else return (high * 16 + low).toUInt8 :: (← hexBytes? rest)

def integers? (items : List Value) : Option (List Int) :=
  items.mapM fun v => match v with
    | .int n => some n
    | _ => none

def applied (name : String) (args : List String) : Text :=
  name ++ "(" ++ joinStrings ", " args ++ ")"

def monthLength (year month : Int) : Int :=
  if month = 2 then
    if year % 4 = 0 && (year % 100 ≠ 0 || year % 400 = 0) then 29 else 28
  else if month = 4 || month = 6 || month = 9 || month = 11 then 30 else 31

def isDay (year month day : Int) : Bool :=
  1 ≤ year && year ≤ 9999 && 1 ≤ month && month ≤ 12 && 1 ≤ day && day ≤ monthLength year month

def isTime : List Int → Bool
  | [] => true
  | hour :: rest =>
    0 ≤ hour && hour < 24 && (rest.take 2).all (fun n => 0 ≤ n && n < 60) &&
      (rest.drop 2).all fun n => 0 ≤ n && n < 1000000

/-- Hour and minute, and second and microsecond as far as they are not zero. -/
def timeParts (l : List Int) : List Int :=
  let part (i : Nat) := (l[i]?).getD 0
  [part 0, part 1] ++
    if part 3 ≠ 0 then [part 2, part 3] else if part 2 ≠ 0 then [part 2] else []

def date (l : List Int) : Except Defect Sample :=
  match l with
  | [y, m, d] =>
    if isDay y m d then .ok (.noted "date" (applied "datetime.date" (l.map toString))) else .error .value
  | _ => .error .kind

def moment (l : List Int) : Except Defect Sample :=
  match l with
  | y :: m :: d :: time =>
    if 4 < time.length then .error .kind
    else if isDay y m d && isTime time then
      .ok (.noted "datetime" (applied "datetime.datetime" (([y, m, d] ++ timeParts time).map toString)))
    else .error .value
  | _ => .error .kind

def timeOfDay (l : List Int) : Except Defect Sample :=
  if 4 < l.length then .error .kind
  else if isTime l then .ok (.noted "time" (applied "datetime.time" ((timeParts l).map toString)))
  else .error .value

/-- A span of time from days, seconds, microseconds, milliseconds, minutes, hours and weeks. -/
def span (l : List Int) : Except Defect Sample :=
  if 7 < l.length then .error .kind
  else
    let units : List Int := [86400000000, 1000000, 1, 1000, 60000000, 3600000000, 604800000000]
    let total := (List.zipWith (· * ·) l units).foldl (· + ·) 0
    let parts := [("days", total / 86400000000), ("seconds", total % 86400000000 / 1000000),
      ("microseconds", total % 1000000)].filter fun p => p.2 ≠ 0
    let shown := parts.map fun (name, n) => name ++ "=" ++ toString n
    .ok (.noted "timedelta" (applied "datetime.timedelta" (if shown.isEmpty then ["0"] else shown)))

def fraction (n d : Int) : Except Defect Sample :=
  if d = 0 then .error .value
  else
    let g : Int := Int.gcd n d
    let sign : Int := if d < 0 then -1 else 1
    .ok (.noted "Fraction" (applied "Fraction" [toString (sign * n / g), toString (sign * d / g)]))

/-- A path without empty names and names that stand for the same place. -/
def path (s : String) : Sample :=
  let root := Path.leadingSlashes s
  let names := (Path.names s).filter fun n => n ≠ "" && n ≠ "."
  let shown := root ++ joinStrings "/" names
  .noted "PurePosixPath"
    (applied "PurePosixPath" [quotedString (if shown.isEmpty then "." else shown)])

def identifier (s : String) : Except Defect Sample :=
  let digits := (s.toList.filter fun c => c ≠ '-' && c ≠ '\x7b' && c ≠ '\x7d').map Char.toLower
  if digits.length ≠ 32 || (hexBytes? digits).isNone then .error .value
  else
    let part (first count : Nat) := String.ofList ((digits.drop first).take count)
    let shown := joinStrings "-" [part 0 8, part 8 4, part 12 4, part 16 4, part 20 12]
    .ok (.noted "UUID" (applied "UUID" [quotedString shown]))

def ofText (tag : String) (t : Text) : Except Defect Sample :=
  let s := t.display
  let bytes (kind : String) := match hexBytes? s.toList with
    | some b => .ok (.bytes kind b)
    | none => .error .value
  match tag with
  | "$float" => .ok (.float (number s))
  | "$int" => match integerOfString? s with
    | some n => .ok (.int n)
    | none => .error .value
  | "$bytes" => bytes "bytes"
  | "$bytearray" => bytes "bytearray"
  | "$memoryview" => bytes "memoryview"
  | "$decimal" => .ok (.noted "Decimal" (applied "Decimal" [quotedString s]))
  | "$path" => .ok (path s)
  | "$uuid" => identifier s
  | _ => .error .key

def ofParts (tag : String) (items : List Value) : Except Defect Sample :=
  let withIntegers (f : List Int → Except Defect Sample) := match integers? items with
    | some l => f l
    | none => .error .kind
  match tag with
  | "$date" => withIntegers date
  | "$datetime" => withIntegers moment
  | "$time" => withIntegers timeOfDay
  | "$timedelta" => withIntegers span
  | "$fraction" => withIntegers fun l => match l with
    | [n, d] => fraction n d
    | _ => .error .kind
  | "$complex" => match items with
    | [.text re, .text im] => .ok (.complex (number re.display) (number im.display))
    | _ => .error .kind
  | _ => .error .key

/-- The items of a set, each once; items that can be changed are refused. -/
def distinct (items : List Sample) : Except Defect (List Sample) := do
  let named ← items.mapM fun s => match s.identity? with
    | some b => .ok (b, s)
    | none => .error .kind
  return (named.foldl (fun found (b, s) =>
    if found.any (fun (p : Bytes × Sample) => p.1 = b) then found else found ++ [(b, s)]) []).map Prod.snd

/-- The entries of a table.  An entry whose key is there already takes the place of its value. -/
def entries (pairs : List (Sample × Sample)) : Except Defect (List (Sample × Sample)) := do
  let named ← pairs.mapM fun (k, v) => match k.identity? with
    | some b => .ok (b, k, v)
    | none => .error .kind
  let put (found : Assoc Bytes (Sample × Sample)) (entry : Bytes × Sample × Sample) :=
    match Assoc.get? found entry.1 with
    | some (k, _) => Assoc.insert found entry.1 (k, entry.2.2)
    | none => found ++ [entry]
  return Assoc.values (named.foldl put [])

def wrapped (s : Sample) (depth : Int) : Sample := depth.toNat.repeat (fun s => .list [s]) s

mutual

def sample : Value → Except Defect Sample
  | .null => .ok .null
  | .bool b => .ok (.bool b)
  | .int n => .ok (.int n)
  | .float x => .ok (.float x)
  | .text t => .ok (.text t)
  | .array items => do return .list (← samples items)
  | .object [(key, v)] =>
    if key.head? = some 0x24 then tagged key.display v
    else do return .table [(.text key, ← sample v)]
  | .object fields => do return .table ((← members fields).map fun (k, v) => (.text k, v))

/-- The sample that the only member of an object stands for. -/
def tagged (tag : String) : Value → Except Defect Sample
  | .text t => ofText tag t
  | .int n =>
    match tag with
    | "$object" => .ok (.thing "object")
    | "$type" => .ok (.thing "type")
    | "$range" => .ok (.list ((List.range n.toNat).map fun (i : Nat) => .int i))
    | _ => .error .key
  | .object fields =>
    if tag = "$data" then do return .record "Data" (← members fields) else .error .key
  | .array items =>
    match tag with
    | "$tuple" => do return .tuple (← samples items)
    | "$set" => do return .set false (← distinct (← samples items))
    | "$frozenset" => do return .set true (← distinct (← samples items))
    | "$dict" => do return .table (← entries (← pairs items))
    | "$nest" => match items with
      | [.int n, v] => do return wrapped (← sample v) n
      | _ => .error .kind
    | _ => ofParts tag items
  | _ => .error .key

def samples : List Value → Except Defect (List Sample)
  | [] => .ok []
  | v :: rest => do
    let first ← sample v
    return first :: (← samples rest)

def pairs : List Value → Except Defect (List (Sample × Sample))
  | [] => .ok []
  | .array [k, v] :: rest => do
    let key ← sample k
    let value ← sample v
    return (key, value) :: (← pairs rest)
  | _ :: _ => .error .kind

def members : List (Text × Value) → Except Defect (List (Text × Sample))
  | [] => .ok []
  | (k, v) :: rest => do
    let first ← sample v
    return (k, first) :: (← members rest)

end

/-- The fingerprint of the sample that a JSON value stands for, and the rounded number if it is a number that
need not be whole. -/
def fingerprint (v : Value) : Except Defect (String × Option Binary64) := do
  let s ← sample v
  return (s.fingerprint, match s with
    | .float x => some (Sample.rounded x)
    | _ => none)

end AddonBuilder.Measure.Notation
