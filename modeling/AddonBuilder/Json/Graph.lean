import AddonBuilder.Json.Encoding
import AddonBuilder.Text.Codec

/-!
# Writing object graphs

Containers in memory may be shared and may contain themselves.
-/

namespace AddonBuilder.Json

/-- A key of a table. -/
inductive Key where
  | text (t : Text)
  | bytes (b : Bytes)
  | int (n : Int)
  | float (x : Binary64)
  | bool (b : Bool)
  | null
  /-- A key of another kind, as messages show it. -/
  | other (shown : Text)
deriving DecidableEq, Repr

/-- A value, or the address of a container. -/
inductive Slot where
  | null
  | bool (b : Bool)
  | int (n : Int)
  | float (x : Binary64)
  | text (t : Text)
  | bytes (b : Bytes)
  | ref (address : Nat)
deriving DecidableEq, Inhabited, Repr

/-- A container of the graph. -/
inductive Cell where
  | list (items : List Slot)
  | tuple (items : List Slot)
  | table (members : List (Key × Slot))
  /-- An object of an unknown kind, as messages show it, and what is written in its place. -/
  | other (shown : Text) (standIn : Option Slot)
deriving Repr

/-- A store of cells and the slot where writing starts. -/
structure Graph where
  cells : Array Cell
  root : Slot

/-- A byte string as a JSON string.  It is decoded by the given encoding; without one, or in UTF-8,
only a string that must be ASCII needs decoding. -/
def bytesText (o : Options) (codec : Option Codec) (b : Bytes) : Except EncodeError Text :=
  let decoded := match codec with
    | some .latin1 => Codec.latin1.decode? b
    | some .ascii => Codec.ascii.decode? b
    | _ => if o.asciiOnly then Codec.utf8.decode? b
      else some ((Codec.utf8.decode? b).getD (b.map CodePoint.ofByte))
  match decoded with
  | some t => .ok (stringText o.asciiOnly t)
  | none => .error .undecodable

namespace Key

/-- The JSON string of a key, or `none` for a key without a text. -/
def string (o : Options) (codec : Option Codec) : Key → Except EncodeError (Option Text)
  | text t => .ok (some (stringText o.asciiOnly t))
  | bytes b => (bytesText o codec b).map some
  | int n => .ok (some (stringText o.asciiOnly (Text.ofInt n)))
  | float x => (numberText o.allowConstants x).map fun t => some (stringText o.asciiOnly t)
  | bool b => .ok (some (stringText o.asciiOnly (if b then "True" else "False")))
  | null => .ok (some (stringText o.asciiOnly "null"))
  | other shown => if o.skipKeys then .ok none else .error (.unknownKey shown)

def textual? : Key → Option Text
  | text t => some t
  | bytes b => some (b.map CodePoint.ofByte)
  | _ => none

/-- The number by which a key is ordered among numbers: a fraction, or a signed infinity as a
fraction with denominator zero. -/
def numeric? : Key → Option (Int × Nat)
  | int n => some (n, 1)
  | bool b => some (if b then 1 else 0, 1)
  | float x => match x.view with
    | .nan => some (0, 0)
    | .infinite negative => some (if negative then -1 else 1, 0)
    | .finite .. => x.toRat?.map fun q => (q.num, q.den)
  | _ => none

def fractionLe (a b : Int × Nat) : Bool :=
  if a.2 = 0 || b.2 = 0 then
    (if a.2 = 0 then a.1 else 0) ≤ (if b.2 = 0 then b.1 else 0)
  else a.1 * b.2 ≤ b.1 * a.2

/-- The place of a kind of keys among the others. -/
def rank : Key → Nat
  | null => 0
  | int _ | float _ | bool _ => 1
  | text _ | bytes _ => 2
  | other _ => 3

/-- The order of keys: `null`, then numbers, then texts, then keys of other kinds. -/
def le (a b : Key) : Bool :=
  match a.textual?, b.textual? with
  | some s, some t => Text.le s t
  | _, _ => match a.numeric?, b.numeric? with
    | some x, some y => fractionLe x y
    | _, _ => a.rank ≤ b.rank

end Key

def sortMembers (members : List (Key × Slot)) : List (Key × Slot) :=
  members.mergeSort fun a b => a.1.le b.1

/-- Writing with an indentation level that outlives errors. -/
abbrev Leveled := ExceptT EncodeError (StateM Nat)

namespace Graph

/-- Runs `body` one level deeper when there is an indent; only after a body that succeeds the level is
lowered again. -/
def indented (o : Options) (left right : CodePoint) (body : Leveled (List (List Text))) :
    Leveled (List Text) := do
  let level ← get
  if o.indent.isSome then set (level + 1)
  let parts ← body
  if o.indent.isSome then modify (· - 1)
  return bracketed o level left right parts

/-- The chunks of what unfolds from a slot.  `open_` holds the addresses of the open containers, and
`fuel` bounds the nesting. -/
def write (g : Graph) (o : Options) (codec : Option Codec) :
    Nat → List Nat → Slot → Leveled (List Text)
  | 0, _, _ => throw .endless
  | fuel + 1, open_, slot =>
    match slot with
    | .null => return ["null"]
    | .bool b => return [if b then "true" else "false"]
    | .int n => return [Text.ofInt n]
    | .float x => do return [← liftExcept (numberText o.allowConstants x)]
    | .text t => return [stringText o.asciiOnly t]
    | .bytes b => do return [← liftExcept (bytesText o codec b)]
    | .ref address =>
      match g.cells[address]? with
      | none => throw .endless
      | some (.list items) | some (.tuple items) =>
        if items.isEmpty then return ["[]"]
        else if o.checkCircular && open_.contains address then throw .circular
        else indented o 0x5B 0x5D (items.mapM (write g o codec fuel (address :: open_)))
      | some (.table members) =>
        if members.isEmpty then return ["\x7b\x7d"]
        else if o.checkCircular && open_.contains address then throw .circular
        else indented o 0x7B 0x7D do
          let members := if o.sortKeys then sortMembers members else members
          let parts ← members.mapM fun (key, slot) => do
            match ← liftExcept (key.string o codec) with
            | none => return none
            | some k =>
              let chunks ← write g o codec fuel (address :: open_) slot
              return some (k :: o.keySeparator :: chunks)
          return parts.filterMap id
      | some (.other shown standIn) =>
        if o.checkCircular && open_.contains address then throw .circular
        else match standIn with
          | none => throw (.unknownObject shown)
          | some slot => write g o codec fuel (address :: open_) slot
where
  /-- An outcome that does not touch the level. -/
  liftExcept {α : Type} (r : Except EncodeError α) : Leveled α :=
    match r with
    | .ok a => pure a
    | .error e => throw e

end Graph

/-- A writer's options, its codec for byte strings, and how deep it stands. -/
structure Writer where
  options : Options := {}
  codec : Option Codec := some .utf8
  level : Nat := 0

/-- Writes a graph; the writer is returned as the call leaves it. -/
def Writer.write (w : Writer) (g : Graph) : Except EncodeError (List Text) × Writer :=
  let (result, level) := (g.write w.options w.codec (g.cells.size + 1) [] g.root).run.run w.level
  (result, { w with level })

end AddonBuilder.Json
