import AddonBuilder.Json.Shown

/-!
# Records

A record is a table whose entries can be read as fields.
-/

namespace AddonBuilder

/-- A value with named fields. -/
structure Record where
  fields : Assoc Text Datum := []
deriving Inhabited

namespace Record

/-- What a record has not. -/
inductive Missing where
  | entry
  | field (name : Text)
deriving DecidableEq, Repr

/-- What a value gives when it is read. -/
def force : Datum → Datum
  | .deferred result => result
  | d => d

def entry (r : Record) (key : Text) : Except Missing Datum :=
  match Assoc.get? r.fields key with
  | some d => .ok (force d)
  | none => .error .entry

def field (r : Record) (key : Text) : Except Missing Datum :=
  (r.entry key).mapError fun _ => .field key

def getD (r : Record) (key : Text) (default : Datum) : Datum :=
  (Assoc.get? r.fields key).getD default

def set (r : Record) (key : Text) (value : Datum) : Record := ⟨Assoc.insert r.fields key value⟩

def removeEntry (r : Record) (key : Text) : Except Missing Record :=
  if Assoc.contains r.fields key then .ok ⟨Assoc.erase r.fields key⟩ else .error .entry

def removeField (r : Record) (key : Text) : Except Missing Record :=
  (r.removeEntry key).mapError fun _ => .field key

/-- The names of operations that every record has as fields too. -/
def operations : List String :=
  ["clear", "copy", "fromkeys", "get", "items", "keys", "pop", "popitem", "setdefault", "update",
    "values"]

def hasField (r : Record) (key : Text) : Bool :=
  Assoc.contains r.fields key || operations.any fun o => Text.ofString o = key

def shown (r : Record) : Text := (Datum.record r.fields).shown

end Record

end AddonBuilder
