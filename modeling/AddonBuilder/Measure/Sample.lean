import AddonBuilder.Digest
import AddonBuilder.Json.Shown
import AddonBuilder.Number.Arithmetic

/-!
# What a benchmark gives

A `Sample` is a value of any kind that a benchmark may give.
-/

namespace AddonBuilder.Measure

open Text

/-- A value that a trial may give. -/
inductive Sample where
  | null
  | bool (b : Bool)
  | int (n : Int)
  | float (x : Binary64)
  | text (t : Text)
  /-- Bytes, with the name of the kind of their container. -/
  | bytes (kind : String) (content : Bytes)
  | list (items : List Sample)
  | tuple (items : List Sample)
  | table (entries : List (Sample × Sample))
  | set (frozen : Bool) (items : List Sample)
  | complex (re im : Binary64)
  | record (kind : String) (fields : List (Text × Sample))
  /-- A value that is known by its notation. -/
  | noted (kind : String) (written : Text)
  /-- A value of which only the kind is known. -/
  | thing (kind : String)
deriving Inhabited, Repr

namespace Sample

def kind : Sample → String
  | null => "NoneType"
  | bool _ => "bool"
  | int _ => "int"
  | float _ => "float"
  | text _ => "str"
  | bytes k _ | record k _ | noted k _ | thing k => k
  | list _ => "list"
  | tuple _ => "tuple"
  | table _ => "dict"
  | set frozen _ => if frozen then "frozenset" else "set"
  | complex _ _ => "complex"

/-- A number with six significant digits, and no sign at zero. -/
def rounded (x : Binary64) : Binary64 := if x.isZero then Binary64.zero false else x.significant 6

def ascii (s : String) : Bytes := Codec.utf8OfString s

/-- A text as bytes; a code point that has none is left out. -/
def textBytes (t : Text) : Bytes := ascii (String.ofList (t.filterMap CodePoint.toChar?))

/-- The letter of a container and the number of its items. -/
def heading (letter : String) (n : Nat) : Bytes := ascii (letter ++ toString n)

mutual

/-- The bytes of which a fingerprint is the digest. -/
def stream : Sample → Bytes
  | null => ascii "None"
  | bool b => ascii (if b then "True" else "False")
  | int n => ascii (toString n)
  | float x => ascii (toString (rounded x))
  | text t => ascii "s" ++ textBytes t
  | bytes _ content => ascii "s" ++ content
  | list items | tuple items => heading "L" items.length ++ (streams items).flatten
  | table entries =>
    heading "D" entries.length ++
      (((entryStreams entries).mergeSort fun a b => le a.1 b.1).map Prod.snd).flatten
  | set _ items =>
    let prints := (streams items).map fun s => ofString (Digest.hex s)
    heading "S" items.length ++ ((prints.mergeSort le).map textBytes).flatten
  | complex re im => ascii ("c" ++ toString (rounded re) ++ toString (rounded im))
  | record _ fields =>
    heading "D" fields.length ++
      (((fieldStreams fields).mergeSort fun a b => le a.1 b.1).map Prod.snd).flatten
  | noted _ shown => textBytes shown
  | thing k => ascii ("<builtins." ++ k ++ ">")

def streams : List Sample → List Bytes
  | [] => []
  | s :: rest => stream s :: streams rest

def entryStreams : List (Sample × Sample) → List (Text × Bytes)
  | [] => []
  | (k, v) :: rest =>
    let key := stream k
    (ofString (Digest.hex key), key ++ stream v) :: entryStreams rest

def fieldStreams : List (Text × Sample) → List (Text × Bytes)
  | [] => []
  | (k, v) :: rest =>
    let key := ascii "s" ++ textBytes k
    (ofString (Digest.hex key), key ++ stream v) :: fieldStreams rest

end

def fingerprint (s : Sample) : String := Digest.hex s.stream

mutual

def ofDatum : Datum → Sample
  | .null => null
  | .bool b => bool b
  | .int n => int n
  | .float x => float x
  | .text t => text t
  | .list items => list (ofData items)
  | .tuple items => tuple (ofData items)
  | .table entries => table (ofEntries entries)
  | .record fields => table (ofFields fields)
  | .deferred d => ofDatum d

def ofData : List Datum → List Sample
  | [] => []
  | d :: rest => ofDatum d :: ofData rest

def ofEntries : List (Datum × Datum) → List (Sample × Sample)
  | [] => []
  | (k, v) :: rest => (ofDatum k, ofDatum v) :: ofEntries rest

def ofFields : List (Text × Datum) → List (Sample × Sample)
  | [] => []
  | (k, v) :: rest => (text k, ofDatum v) :: ofFields rest

end

/-- Bytes that agree for keys that are the same; a value that can be changed is no key. -/
def identity? : Sample → Option Bytes
  | null => some (ascii "n")
  | bool b => some (ascii (if b then "i1" else "i0"))
  | int n => some (ascii ("i" ++ toString n))
  | float x =>
    match x.toRat? with
    | some q => some (ascii (if q.isInt then "i" ++ toString q.num else "f" ++ toString x))
    | none => some (ascii ("f" ++ toString x))
  | text t => some (ascii "t" ++ textBytes t)
  | bytes kind content => if kind = "bytearray" then none else some (ascii "b" ++ content)
  | tuple items => (identities? items).map fun l =>
    heading "(" l.length ++ (l.map fun b => heading ":" b.length ++ b).flatten
  | set frozen items =>
    if !frozen then none
    else (identities? items).map fun l =>
      ascii "S" ++ ((l.map fun b => ofString (Digest.hex b)).mergeSort le).flatten.flatMap
        fun p => textBytes [p]
  | complex re im => some (ascii ("c" ++ toString re ++ "," ++ toString im))
  | noted kind shown => some (ascii ("r" ++ kind) ++ textBytes shown)
  | thing kind => some (ascii ("o" ++ kind))
  | list _ | table _ | record _ _ => none
where
  identities? : List Sample → Option (List Bytes)
  | [] => some []
  | s :: rest => do return (← identity? s) :: (← identities? rest)

end Sample

end AddonBuilder.Measure
