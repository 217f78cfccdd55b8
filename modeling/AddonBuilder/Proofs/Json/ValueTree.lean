import AddonBuilder.Json.Value

/-!
# Values as trees

A value is compared with another one by `Same`: members count by their keys and not by their order,
and all patterns that are not a number count as one.
-/

namespace AddonBuilder.Json.Value

theorem sizeOf_lt_array {items : List Value} {v : Value} (hv : v ∈ items) :
    sizeOf v < sizeOf (array items) := by
  have hsize := List.sizeOf_lt_of_mem hv
  simp only [Value.array.sizeOf_spec]
  omega

theorem sizeOf_lt_object {members : List (Text × Value)} {m : Text × Value} (hm : m ∈ members) :
    sizeOf m.2 < sizeOf (object members) := by
  have hsize := List.sizeOf_lt_of_mem hm
  grind

/-- Induction on values: the statement about a container may use that about everything in it. -/
@[elab_as_elim]
theorem treeInduction {P : Value → Prop} (null : P null) (bool : ∀ b, P (bool b))
    (int : ∀ n, P (int n)) (float : ∀ x, P (float x)) (text : ∀ t, P (text t))
    (array : ∀ items, (∀ v ∈ items, P v) → P (array items))
    (object : ∀ members, (∀ m ∈ members, P m.2) → P (object members)) (v : Value) : P v :=
  match v with
  | .null => null
  | .bool b => bool b
  | .int n => int n
  | .float x => float x
  | .text t => text t
  | .array items => array items fun v _ =>
    treeInduction null bool int float text array object v
  | .object members => object members fun m _ =>
    treeInduction null bool int float text array object m.2
termination_by v
decreasing_by
  · exact sizeOf_lt_array (by assumption)
  · exact sizeOf_lt_object (by assumption)

/-- A text stands in a value, perhaps as a key. -/
inductive Occurs (t : Text) : Value → Prop
  | text : Occurs t (text t)
  | item {items : List Value} {v : Value} (hv : v ∈ items) (h : Occurs t v) : Occurs t (array items)
  | key {members : List (Text × Value)} {v : Value} (hv : (t, v) ∈ members) :
      Occurs t (object members)
  | member {members : List (Text × Value)} {m : Text × Value} (hm : m ∈ members)
      (h : Occurs t m.2) :
      Occurs t (object members)

@[simp] theorem occurs_text_iff {t t' : Text} : (text t').Occurs t ↔ t = t' :=
  ⟨fun h => by cases h; rfl, fun h => h ▸ .text⟩

@[simp] theorem not_occurs_float {t : Text} {x : Binary64} : ¬ (float x).Occurs t := nofun

@[simp] theorem occurs_array_iff {t : Text} {items : List Value} :
    (array items).Occurs t ↔ ∃ v ∈ items, v.Occurs t :=
  ⟨fun h => by cases h with | item hv h => exact ⟨_, hv, h⟩, fun ⟨_, hv, h⟩ => .item hv h⟩

@[simp] theorem occurs_object_iff {t : Text} {members : List (Text × Value)} :
    (object members).Occurs t ↔ ∃ m ∈ members, t = m.1 ∨ m.2.Occurs t := by
  constructor
  · intro h
    cases h with
    | key hv => exact ⟨_, hv, .inl rfl⟩
    | member hm h => exact ⟨_, hm, .inr h⟩
  · rintro ⟨m, hm, rfl | h⟩
    · exact .key hm
    · exact .member hm h

/-- No object in a value has two members with one key. -/
inductive DistinctKeys : Value → Prop
  | null : DistinctKeys null
  | bool (b : Bool) : DistinctKeys (bool b)
  | int (n : Int) : DistinctKeys (int n)
  | float (x : Binary64) : DistinctKeys (float x)
  | text (t : Text) : DistinctKeys (text t)
  | array {items : List Value} (h : ∀ v ∈ items, DistinctKeys v) : DistinctKeys (array items)
  | object {members : List (Text × Value)} (hkeys : (Assoc.keys members).Nodup)
      (h : ∀ m ∈ members, DistinctKeys m.2) :
      DistinctKeys (object members)

/-- Equality of values in which the order of members and the pattern of a value that is not a number
do not count. -/
inductive Same : Value → Value → Prop
  | null : Same null null
  | bool (b : Bool) : Same (bool b) (bool b)
  | int (n : Int) : Same (int n) (int n)
  | float (x : Binary64) : Same (float x) (float x)
  | nan {x y : Binary64} (hx : x.isNaN = true) (hy : y.isNaN = true) : Same (float x) (float y)
  | text (t : Text) : Same (text t) (text t)
  | array {a b : List Value} (hlen : a.length = b.length)
      (h : ∀ (i : Nat) (ha : i < a.length) (hb : i < b.length), Same a[i] b[i]) :
      Same (array a) (array b)
  | object {a b : List (Text × Value)} (hkeys : ∀ k, Assoc.contains a k = Assoc.contains b k)
      (h : ∀ k v w, Assoc.get? a k = some v → Assoc.get? b k = some w → Same v w) :
      Same (object a) (object b)

end AddonBuilder.Json.Value
