import AddonBuilder.Json.Parser
import AddonBuilder.Proofs.Json.ValueTree

/-!
# Objects that are replaced while they are read

A text may be read into things of any kind: a `Carrier` says which thing stands for each plain
value.
-/

namespace AddonBuilder

open List

namespace Assoc

variable {κ α β : Type} [DecidableEq κ]

theorem insert_map (m : Assoc κ α) (f : α → β) (key : κ) (value : α) :
    insert (m.map fun p => (p.1, f p.2)) key (f value) =
      (insert m key value).map fun p => (p.1, f p.2) := by
  induction m with
  | nil => rfl
  | cons p rest ih =>
    by_cases hp : p.1 = key
    · simp [insert, hp]
    · simp [insert, hp, ih]

theorem ofList_map (pairs : List (κ × α)) (f : α → β) :
    ofList (pairs.map fun p => (p.1, f p.2)) = (ofList pairs).map fun p => (p.1, f p.2) := by
  have hmerge : ∀ m : Assoc κ α, merge (m.map fun p => (p.1, f p.2))
      (pairs.map fun p => (p.1, f p.2)) = (merge m pairs).map fun p => (p.1, f p.2) := by
    induction pairs with
    | nil => exact fun _ => rfl
    | cons p rest ih =>
      intro m
      have hstep := ih (insert m p.1 p.2)
      rw [← insert_map] at hstep
      exact hstep
  exact hmerge []

theorem ofList_ne_nil {pairs : List (κ × α)} (h : pairs ≠ []) : ofList pairs ≠ [] := by
  obtain ⟨p, rest, rfl⟩ := exists_cons_of_ne_nil h
  intro hnil
  have hkey : contains (ofList (p :: rest)) p.1 := contains_ofList.2 (by simp [keys])
  rw [hnil] at hkey
  cases hkey

end Assoc

namespace Json

/-! ## Readings that go through each other -/

namespace Document

theorem sizeOf_lt_array {items : List Document} {d : Document} (hd : d ∈ items) :
    sizeOf d < sizeOf (array items) := by
  have hsize := sizeOf_lt_of_mem hd
  simp only [Document.array.sizeOf_spec]
  omega

theorem sizeOf_lt_object {members : List (Text × Document)} {m : Text × Document}
    (hm : m ∈ members) : sizeOf m.2 < sizeOf (object members) := by
  have hsize := sizeOf_lt_of_mem hm
  grind

/-- Induction on documents: the statement about a container may use that about everything in it. -/
@[elab_as_elim]
theorem treeInduction {P : Document → Prop} (constant : ∀ k, P (constant k))
    (integer : ∀ t, P (integer t)) (real : ∀ t, P (real t)) (string : ∀ t, P (string t))
    (array : ∀ items, (∀ d ∈ items, P d) → P (array items))
    (object : ∀ members, (∀ m ∈ members, P m.2) → P (object members)) (d : Document) : P d :=
  match d with
  | .constant k => constant k
  | .integer t => integer t
  | .real t => real t
  | .string t => string t
  | .array items => array items fun d _ => treeInduction constant integer real string array object d
  | .object members => object members fun m _ =>
    treeInduction constant integer real string array object m.2
termination_by d
decreasing_by
  · exact sizeOf_lt_array (by assumption)
  · exact sizeOf_lt_object (by assumption)

theorem readItems_eq_map {α : Type} (r : Reading α) (items : List Document) :
    readItems r items = items.map (read r) := by
  induction items with
  | nil => rfl
  | cons d items ih => rw [readItems, ih, map_cons]

theorem readMembers_eq_map {α : Type} (r : Reading α) (members : List (Text × Document)) :
    readMembers r members = members.map fun m => (m.1, read r m.2) := by
  induction members with
  | nil => rfl
  | cons m members ih => rw [readMembers, ih, map_cons]

end Document

/-- A map of meanings that takes what one reading makes of each node to what another one makes of it.
What is made of an object is asked for only if it has members. -/
structure Reading.Maps {α β : Type} (f : α → β) (r : Reading α) (r' : Reading β) : Prop where
  constant : ∀ k, f (r.constant k) = r'.constant k
  integer : ∀ t, f (r.integer t) = r'.integer t
  real : ∀ t, f (r.real t) = r'.real t
  string : ∀ t, f (r.string t) = r'.string t
  array : ∀ l, f (r.array l) = r'.array (l.map f)
  emptyObject : f r.emptyObject = r'.emptyObject
  object : ∀ m : Assoc Text α, m ≠ [] → f (r.object m) = r'.object (m.map fun p => (p.1, f p.2))

theorem Reading.Maps.read {α β : Type} {f : α → β} {r : Reading α} {r' : Reading β}
    (h : Reading.Maps f r r') (d : Document) : d.read r' = f (d.read r) := by
  induction d using Document.treeInduction with
  | constant k => exact (h.constant k).symm
  | integer t => exact (h.integer t).symm
  | real t => exact (h.real t).symm
  | string t => exact (h.string t).symm
  | array items ih =>
    have hitems : items.map (Document.read r') = (items.map (Document.read r)).map f := by
      rw [map_map]
      exact map_congr_left ih
    rw [Document.read, Document.read, h.array, Document.readItems_eq_map,
      Document.readItems_eq_map, hitems]
  | object members ih =>
    rw [Document.read, Document.read]
    by_cases hempty : members = []
    · subst hempty
      exact h.emptyObject.symm
    have hmembers : Document.readMembers r' members =
        (Document.readMembers r members).map fun p => (p.1, f p.2) := by
      rw [Document.readMembers_eq_map, Document.readMembers_eq_map, map_map]
      exact map_congr_left fun m hm => congrArg (Prod.mk m.1) (ih m hm)
    have hread : Document.readMembers r members ≠ [] := by
      rw [Document.readMembers_eq_map]
      simpa using hempty
    rw [if_neg (by simpa using hempty), if_neg (by simpa using hempty),
      h.object _ (Assoc.ofList_ne_nil hread), hmembers, Assoc.ofList_map]

/-! ## Hooks -/

/-- Things into which a text can be read: which of them stands for each plain value. -/
structure Carrier (α : Type) where
  null : α
  bool : Bool → α
  int : Int → α
  float : Binary64 → α
  text : Text → α
  array : List α → α
  object : Assoc Text α → α

namespace Value

mutual

/-- A value with every object replaced by what `hook` makes of its members, from the innermost
objects outwards. -/
def rebuild {α : Type} (c : Carrier α) (hook : Assoc Text α → α) : Value → α
  | null => c.null
  | bool b => c.bool b
  | int n => c.int n
  | float x => c.float x
  | text t => c.text t
  | array items => c.array (rebuildItems c hook items)
  | object members => hook (rebuildMembers c hook members)

def rebuildItems {α : Type} (c : Carrier α) (hook : Assoc Text α → α) : List Value → List α
  | [] => []
  | v :: rest => rebuild c hook v :: rebuildItems c hook rest

def rebuildMembers {α : Type} (c : Carrier α) (hook : Assoc Text α → α) :
    List (Text × Value) → Assoc Text α
  | [] => []
  | (k, v) :: rest => (k, rebuild c hook v) :: rebuildMembers c hook rest

end

section

variable {α : Type} (c : Carrier α) (hook : Assoc Text α → α)

theorem rebuild_array (items : List Value) :
    (array items).rebuild c hook = c.array (items.map (rebuild c hook)) := by
  have hitems : rebuildItems c hook items = items.map (rebuild c hook) := by
    induction items with
    | nil => rfl
    | cons v items ih => rw [rebuildItems, ih, map_cons]
  rw [rebuild, hitems]

theorem rebuild_object (members : List (Text × Value)) :
    (object members).rebuild c hook = hook (members.map fun m => (m.1, m.2.rebuild c hook)) := by
  have hmembers : rebuildMembers c hook members =
      members.map fun m => (m.1, m.2.rebuild c hook) := by
    induction members with
    | nil => rfl
    | cons m members ih => rw [rebuildMembers, ih, map_cons]
  rw [rebuild, hmembers]

end

/-- Somewhere in a value there is an object without members. -/
inductive HasEmptyObject : Value → Prop
  | here : HasEmptyObject (object [])
  | item {items : List Value} {v : Value} (hv : v ∈ items) (h : HasEmptyObject v) :
      HasEmptyObject (array items)
  | member {members : List (Text × Value)} {m : Text × Value} (hm : m ∈ members)
      (h : HasEmptyObject m.2) : HasEmptyObject (object members)

/-- Without empty objects it does not matter what a hook makes of no members. -/
theorem rebuild_congr {α : Type} (c : Carrier α) {hook hook' : Assoc Text α → α}
    (hhook : ∀ m, m ≠ [] → hook m = hook' m) {v : Value} (hv : ¬ v.HasEmptyObject) :
    v.rebuild c hook = v.rebuild c hook' := by
  induction v using treeInduction with
  | array items ih =>
    rw [rebuild_array, rebuild_array]
    exact congrArg c.array (map_congr_left fun v hmem => ih v hmem fun h => hv (.item hmem h))
  | object members ih =>
    have hmembers : (members.map fun m => (m.1, m.2.rebuild c hook)) =
        members.map fun m => (m.1, m.2.rebuild c hook') :=
      map_congr_left fun m hmem =>
        congrArg (Prod.mk m.1) (ih m hmem fun h => hv (.member hmem h))
    rw [rebuild_object, rebuild_object, hmembers]
    refine hhook _ fun hnil => hv ?_
    rw [map_eq_nil_iff.1 hnil]
    exact .here
  | _ => rfl

end Value

/-- Truth values as things: a container is marked if something in it is. -/
def Carrier.marks : Carrier Bool where
  null := false
  bool _ := false
  int _ := false
  float _ := false
  text _ := false
  array items := items.any id
  object members := members.any Prod.snd

/-- The hook that marks an object without members, and passes marks on. -/
def Carrier.markEmpty (members : Assoc Text Bool) : Bool := members.isEmpty || members.any Prod.snd

/-- A hook that is handed every object finds the empty ones. -/
theorem Value.rebuild_markEmpty (v : Value) :
    v.rebuild Carrier.marks Carrier.markEmpty ↔ v.HasEmptyObject := by
  induction v using Value.treeInduction with
  | array items ih =>
    rw [rebuild_array]
    constructor
    · intro h
      obtain ⟨_, hmem, h⟩ := any_eq_true.1 h
      obtain ⟨v, hv, rfl⟩ := mem_map.1 hmem
      exact .item hv ((ih v hv).1 h)
    · intro h
      cases h with
      | item hv h =>
        exact any_eq_true.2 ⟨_, mem_map_of_mem hv, (ih _ hv).2 h⟩
  | object members ih =>
    rw [rebuild_object, Carrier.markEmpty, Bool.or_eq_true]
    constructor
    · rintro (h | h)
      · rw [map_eq_nil_iff.1 (isEmpty_iff.1 h)]
        exact .here
      · obtain ⟨_, hmem, h⟩ := any_eq_true.1 h
        obtain ⟨m, hm, rfl⟩ := mem_map.1 hmem
        exact .member hm ((ih m hm).1 h)
    · intro h
      cases h with
      | here => exact .inl rfl
      | member hm h =>
        exact .inr (any_eq_true.2 ⟨_, mem_map_of_mem hm, (ih _ hm).2 h⟩)
  | _ => exact iff_of_false Bool.false_ne_true fun h => by cases h

theorem Value.rebuild_unmarked {hook : Assoc Text Bool → Bool}
    (hhook : ∀ m, (∀ p ∈ m, p.2 = false) → hook m = false) (v : Value) :
    v.rebuild Carrier.marks hook = false := by
  induction v using Value.treeInduction with
  | array items ih =>
    rw [rebuild_array]
    refine any_eq_false.2 fun b hb => ?_
    obtain ⟨v, hv, rfl⟩ := mem_map.1 hb
    simpa using ih v hv
  | object members ih =>
    rw [rebuild_object]
    refine hhook _ fun p hp => ?_
    obtain ⟨m, hm, rfl⟩ := mem_map.1 hp
    exact ih m hm
  | _ => rfl

namespace Carrier

variable {α : Type}

/-- Values as the things into which a text is read. -/
def values : Carrier Value := ⟨.null, .bool, .int, .float, .text, .array, .object⟩

/-- How documents are read with a hook, or without one. -/
def reading (c : Carrier α) (hook : Option (Assoc Text α → α)) : Reading α where
  constant k := k.value.rebuild c c.object
  integer t := c.int (Lexeme.toInt t)
  real t := c.float (Lexeme.toBinary64 t)
  string := c.text
  array := c.array
  emptyObject := c.object []
  object := hook.getD c.object

/-- The hook that is handed every object, except that one without members stays as it is. -/
def sparing (c : Carrier α) (hook : Assoc Text α → α) (members : Assoc Text α) : α :=
  if members.isEmpty then c.object [] else hook members

theorem sparing_markEmpty (m : Assoc Text Bool) (hm : ∀ p ∈ m, p.2 = false) :
    marks.sparing markEmpty m = false := by
  unfold sparing markEmpty
  split
  · rfl
  · grind

theorem maps_rebuild (c : Carrier α) (hook : Assoc Text α → α) :
    Reading.Maps (Value.rebuild c (c.sparing hook)) Value.reading (c.reading (some hook)) where
  constant k := by cases k <;> rfl
  integer _ := rfl
  real _ := rfl
  string _ := rfl
  array := Value.rebuild_array c _
  emptyObject := rfl
  object m hm := by
    refine (Value.rebuild_object c _ m).trans (if_neg ?_)
    simpa using hm

end Carrier

/-- **A hook reaches every object that has members.**  Reading a text with a hook gives its value with
each such object replaced, from the innermost ones outwards, and the same errors.  An object without
members is not replaced; so reading agrees with replacing every object, whatever the hook is, exactly
if the value has none. -/
theorem read_hooked (mode : Mode) (s : Text) :
    (∀ (α : Type) (c : Carrier α) (hook : Assoc Text α → α),
      (parseSource mode s).map (Document.read (c.reading (some hook))) =
        ((parseSource mode s).map Document.value).map (Value.rebuild c (c.sparing hook))) ∧
    ((∀ (α : Type) (c : Carrier α) (hook : Assoc Text α → α),
      (parseSource mode s).map (Document.read (c.reading (some hook))) =
        ((parseSource mode s).map Document.value).map (Value.rebuild c hook)) ↔
      ∀ v, (parseSource mode s).map Document.value = .ok v → ¬ v.HasEmptyObject) := by
  have hsparing : ∀ (α : Type) (c : Carrier α) (hook : Assoc Text α → α),
      (parseSource mode s).map (Document.read (c.reading (some hook))) =
        ((parseSource mode s).map Document.value).map (Value.rebuild c (c.sparing hook)) := by
    intro α c hook
    cases parseSource mode s with
    | error e => rfl
    | ok d => exact congrArg Except.ok ((c.maps_rebuild hook).read d)
  refine ⟨hsparing, fun hall v hv hempty => ?_, fun hfull α c hook => ?_⟩
  · -- the hook that marks empty objects would find one, but is never handed one
    have heq := hall Bool Carrier.marks Carrier.markEmpty
    rw [hsparing, hv] at heq
    have hfound := (Except.ok.inj heq).trans ((Value.rebuild_markEmpty v).2 hempty)
    rw [Value.rebuild_unmarked Carrier.sparing_markEmpty v] at hfound
    cases hfound
  · rw [hsparing]
    cases hvalue : (parseSource mode s).map Document.value with
    | error e => rfl
    | ok v =>
      refine congrArg Except.ok (Value.rebuild_congr c (fun m hm => ?_) (hfull v hvalue))
      exact if_neg (by simpa using hm)

/-- An object without members is not counted by a hook that counts members. -/
theorem not_every_object_hooked :
    ¬ ∀ (s : Text) (α : Type) (c : Carrier α) (hook : Assoc Text α → α),
      (parseSource {} s).map (Document.read (c.reading (some hook))) =
        (decode s).map (Value.rebuild c hook) := by
  intro h
  have hcounted := h "\x7b\x7d" Value Carrier.values fun members => .int members.length
  have hread : parseSource {} "\x7b\x7d" = .ok (.object []) := by rfl
  have hdecode : decode "\x7b\x7d" = .ok (.object []) := by rfl
  rw [hread, hdecode] at hcounted
  cases hcounted

end Json

end AddonBuilder
