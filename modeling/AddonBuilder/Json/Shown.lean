import AddonBuilder.Json.Value
import AddonBuilder.Number.Shortest
import AddonBuilder.Text.Quoted
import AddonBuilder.Text.Split

/-!
# Values in messages

Messages show a value in a notation of their own: texts in quotes, `None`, `True` and `False`, and
lists, tuples and tables in brackets.
-/

namespace AddonBuilder

open Json

/-- A value that can be shown; tables may have keys of any kind. -/
inductive Datum where
  | null
  | bool (b : Bool)
  | int (n : Int)
  | float (x : Binary64)
  | text (t : Text)
  | list (items : List Datum)
  | tuple (items : List Datum)
  | table (entries : List (Datum × Datum))
  | record (fields : List (Text × Datum))
  | deferred (result : Datum)
deriving Inhabited, Repr

def commaSeparated (l : List Text) : Text := Text.intercalate ", " l

namespace Datum

mutual

def shown : Datum → Text
  | null => "None"
  | bool b => if b then "True" else "False"
  | int n => Text.ofInt n
  | float x => toString x
  | text t => Text.quoted t
  | list items => "[" ++ commaSeparated (shownItems items) ++ "]"
  | tuple items =>
    match items with
    | [item] => "(" ++ shown item ++ ",)"
    | items => "(" ++ commaSeparated (shownItems items) ++ ")"
  | table entries => "\x7b" ++ commaSeparated (shownEntries entries) ++ "\x7d"
  | record fields =>
    "Bunch(" ++ commaSeparated
      (((shownFields fields).mergeSort fun a b => Text.le a.1 b.1).map Prod.snd) ++ ")"
  | deferred result => shown result

def shownItems : List Datum → List Text
  | [] => []
  | d :: rest => shown d :: shownItems rest

def shownEntries : List (Datum × Datum) → List Text
  | [] => []
  | (k, v) :: rest => (shown k ++ ": " ++ shown v) :: shownEntries rest

def shownFields : List (Text × Datum) → List (Text × Text)
  | [] => []
  | (k, v) :: rest => (k, k ++ "=" ++ shown v) :: shownFields rest

end

mutual

def ofValue : Value → Datum
  | .null => null
  | .bool b => bool b
  | .int n => int n
  | .float x => float x
  | .text t => text t
  | .array items => list (ofValues items)
  | .object members => table (ofMembers members)

def ofValues : List Value → List Datum
  | [] => []
  | v :: rest => ofValue v :: ofValues rest

def ofMembers : List (Text × Value) → List (Datum × Datum)
  | [] => []
  | (k, v) :: rest => (text k, ofValue v) :: ofMembers rest

end

mutual

def toValue : Datum → Value
  | null => .null
  | bool b => .bool b
  | int n => .int n
  | float x => .float x
  | text t => .text t
  | list items | tuple items => .array (toValues items)
  | table entries => .object (toMembers entries)
  | record fields => .object (toFields fields)
  | deferred result => toValue result

def toValues : List Datum → List Value
  | [] => []
  | d :: rest => toValue d :: toValues rest

def toMembers : List (Datum × Datum) → Members
  | [] => []
  | (text k, v) :: rest => (k, toValue v) :: toMembers rest
  | (k, v) :: rest => (k.shown, toValue v) :: toMembers rest

def toFields : List (Text × Datum) → Members
  | [] => []
  | (k, v) :: rest => (k, toValue v) :: toFields rest

end

end Datum

namespace Json.Value

def shown (v : Value) : Text := (Datum.ofValue v).shown

/-- A value as it is put into a text: a text stands for itself. -/
def plain : Value → Text
  | text t => t
  | v => v.shown

/-- The elements of a value that can be gone through: the items of an array, the letters of a text,
the keys of an object. -/
def elements? : Value → Option (List Value)
  | array items => some items
  | text t => some (t.map fun p => .text [p])
  | object members => some (members.map fun (k, _) => .text k)
  | _ => none

end Json.Value

end AddonBuilder
