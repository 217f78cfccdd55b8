import AddonBuilder.Assoc
import AddonBuilder.Number.Binary64
import AddonBuilder.Text.Basic

/-!
# JSON values

A value is null, a truth value, an integer of any size, a double-precision number, a text, an array
or an object.
-/

namespace AddonBuilder.Json

/-- A JSON value; the members of an object stand in order. -/
inductive Value where
  | null
  | bool (b : Bool)
  | int (n : Int)
  | float (x : Binary64)
  | text (t : Text)
  | array (items : List Value)
  | object (members : List (Text × Value))
deriving Inhabited, Repr

/-- The members of an object. -/
abbrev Members := Assoc Text Value

namespace Value

mutual

/-- Structural equality; members are compared in order. -/
def beq : Value → Value → Bool
  | null, null => true
  | bool a, bool b => a == b
  | int a, int b => a == b
  | float a, float b => a.bits == b.bits
  | text a, text b => a == b
  | array a, array b => beqItems a b
  | object a, object b => beqMembers a b
  | _, _ => false

def beqItems : List Value → List Value → Bool
  | [], [] => true
  | a :: as, b :: bs => beq a b && beqItems as bs
  | _, _ => false

def beqMembers : List (Text × Value) → List (Text × Value) → Bool
  | [], [] => true
  | (k, a) :: as, (l, b) :: bs => k == l && beq a b && beqMembers as bs
  | _, _ => false

end

instance : BEq Value := ⟨beq⟩

/-- The text of a string. -/
def str (s : String) : Value := .text s

/-- Whether a value counts as given: not null, false, zero or empty. -/
def isGiven : Value → Bool
  | null => false
  | bool b => b
  | int n => n != 0
  | float x => !x.isZero
  | text t => !t.isEmpty
  | array items => !items.isEmpty
  | object members => !members.isEmpty

def get? (v : Value) (key : Text) : Option Value :=
  match v with
  | object members => Assoc.get? members key
  | _ => none

end Value

end AddonBuilder.Json
