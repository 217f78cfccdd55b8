import AddonBuilder.Install.Description

/-!
# Edits of a forest

A description is edited by name: the first element of a name gets another value or one more child,
and all elements of a name are taken away.
-/

namespace AddonBuilder.Markup.Tree

open List Option Install

/-- A forest is empty, or starts with a leaf, or starts with an element that has a forest in it. -/
@[elab_as_elim]
theorem forest_induction {p : List Tree → Prop} (nil : p [])
    (leaf : ∀ kind content rest, p rest → p (.leaf kind content :: rest))
    (element : ∀ name attrs children value rest, p children → p rest →
      p (.element name attrs children value :: rest)) : ∀ l, p l
  | [] => nil
  | .leaf kind content :: rest => leaf kind content rest (forest_induction nil leaf element rest)
  | .element name attrs children value :: rest =>
    element name attrs children value rest (forest_induction nil leaf element children)
      (forest_induction nil leaf element rest)

/-! ## Names in document order -/

/-- The names of the elements of a forest in document order. -/
def tags (l : List Tree) : List String := (elementsOf l).filterMap name?

/-- The names of the elements at the top of a forest. -/
def tops (l : List Tree) : List String := l.filterMap name?

/-- The names that the nodes at the top of a forest go by. -/
def heads (l : List Tree) : List String := l.filterMap nodeName?

section Names

variable {kind : LeafKind} {content : Json.Value} {name asked : String}
  {attrs : List (String × Text)} {children rest l l' : List Tree} {value : Option Json.Value}

theorem elementsOf_append (l l' : List Tree) : elementsOf (l ++ l') = elementsOf l ++ elementsOf l' := by
  induction l with
  | nil => simp [elementsOf]
  | cons n l ih => simp [elementsOf, ih]

@[simp] theorem tags_nil : tags [] = [] := rfl

@[simp] theorem tags_leaf : tags (.leaf kind content :: rest) = tags rest := by
  simp [tags, elementsOf, elements]

@[simp] theorem tags_element :
    tags (.element name attrs children value :: rest) = name :: (tags children ++ tags rest) := by
  simp [tags, elementsOf, elements, name?]

@[simp] theorem tags_append : tags (l ++ l') = tags l ++ tags l' := by
  simp [tags, elementsOf_append]

theorem tags_cons (n : Tree) : tags (n :: rest) = tags [n] ++ tags rest := by
  rw [← tags_append]
  rfl

@[simp] theorem tops_leaf : tops (.leaf kind content :: rest) = tops rest := rfl

@[simp] theorem tops_element :
    tops (.element name attrs children value :: rest) = name :: tops rest := rfl

@[simp] theorem tops_append : tops (l ++ l') = tops l ++ tops l' := by simp [tops]

@[simp] theorem heads_append : heads (l ++ l') = heads l ++ heads l' := by simp [heads]

theorem heads_cons (n : Tree) : heads (n :: rest) = n.nodeName?.toList ++ heads rest := by
  cases h : n.nodeName? <;> simp [heads, h]

theorem mem_tags_of_mem_tops (h : name ∈ tops l) : name ∈ tags l := by
  induction l with
  | nil => cases h
  | cons n l ih =>
    cases n with
    | leaf kind content => simpa using ih h
    | element name' attrs children value =>
      rcases mem_cons.1 h with rfl | h
      · simp
      · simp [ih h]

/-! ## Edits, one node after another -/

theorem isAsked_eq (h : asked ≠ "*") : isAsked asked name = decide (asked = name) := by
  simp [isAsked, h]

@[simp] theorem changeFirstOf?_leaf (f : Tree → Tree) :
    changeFirstOf? asked f (.leaf kind content :: rest) =
      (changeFirstOf? asked f rest).map (.leaf kind content :: ·) := by
  simp [changeFirstOf?, changeFirst?]

theorem changeFirstOf?_element (f : Tree → Tree) :
    changeFirstOf? asked f (.element name attrs children value :: rest) =
      if isAsked asked name then some (f (.element name attrs children value) :: rest)
      else ((changeFirstOf? asked f children).map (.element name attrs · value :: rest)).or
        ((changeFirstOf? asked f rest).map (.element name attrs children value :: ·)) := by
  rw [changeFirstOf?, changeFirst?]
  cases isAsked asked name with
  | true => simp
  | false => cases changeFirstOf? asked f children <;> simp

@[simp] theorem withoutOf_leaf :
    withoutOf asked (.leaf kind content :: rest) = .leaf kind content :: withoutOf asked rest := by
  simp [withoutOf, without, name?]

theorem withoutOf_element :
    withoutOf asked (.element name attrs children value :: rest) =
      if isAsked asked name then withoutOf asked rest
      else .element name attrs (withoutOf asked children) value :: withoutOf asked rest := by
  rw [withoutOf, without]
  rfl

theorem withoutOf_append : withoutOf asked (l ++ l') = withoutOf asked l ++ withoutOf asked l' := by
  induction l with
  | nil => simp [withoutOf]
  | cons n l ih =>
    cases n with
    | leaf kind content => simp [ih]
    | element name attrs children value =>
      simp only [cons_append, withoutOf_element, ih]
      split <;> rfl

theorem changeFirstOf?_append (f : Tree → Tree) (l l' : List Tree) :
    changeFirstOf? asked f (l ++ l') =
      ((changeFirstOf? asked f l).map (· ++ l')).or ((changeFirstOf? asked f l').map (l ++ ·)) := by
  induction l with
  | nil => cases h : changeFirstOf? asked f l' <;> simp [changeFirstOf?, h]
  | cons n l ih =>
    simp only [cons_append, changeFirstOf?, ih]
    cases changeFirst? asked f n <;> cases changeFirstOf? asked f l <;>
      cases changeFirstOf? asked f l' <;> simp

theorem changeFirstOf?_eq_none_iff (hasked : asked ≠ "*") (f : Tree → Tree) (l : List Tree) :
    changeFirstOf? asked f l = none ↔ asked ∉ tags l := by
  induction l using forest_induction with
  | nil => simp [changeFirstOf?]
  | leaf kind content rest ih => simp [ih]
  | element name attrs children value rest ihc ihr =>
    rw [changeFirstOf?_element, isAsked_eq hasked]
    by_cases hname : asked = name
    · simp [hname]
    · simp [hname, ihc, ihr]

/-! ## What an edit keeps -/

theorem tags_change {f : Tree → Tree} (hf : ∀ n, tags [f n] = tags [n])
    (h : changeFirstOf? asked f l = some l') : tags l' = tags l := by
  induction l using forest_induction generalizing l' with
  | nil => simp [changeFirstOf?] at h
  | leaf kind content rest ih =>
    obtain ⟨rest', hrest, rfl⟩ := map_eq_some_iff.1 (changeFirstOf?_leaf f ▸ h)
    simpa using ih hrest
  | element name attrs children value rest ihc ihr =>
    rw [changeFirstOf?_element] at h
    split at h
    · cases h
      rw [tags_cons, hf, ← tags_cons]
    · rcases or_eq_some_iff.1 h with h | ⟨-, h⟩
      · obtain ⟨children', hchildren, rfl⟩ := map_eq_some_iff.1 h
        simp [ihc hchildren]
      · obtain ⟨rest', hrest, rfl⟩ := map_eq_some_iff.1 h
        simp [ihr hrest]

/-- What the nodes at the top of a forest show stays, if neither the change nor the children of an
element show in it. -/
theorem filterMap_change {α : Type} {f : Tree → Tree} {g : Tree → Option α} (hf : ∀ n, g (f n) = g n)
    (hg : ∀ name attrs children children' value,
      g (.element name attrs children value) = g (.element name attrs children' value))
    (h : changeFirstOf? asked f l = some l') : l'.filterMap g = l.filterMap g := by
  induction l generalizing l' with
  | nil => simp [changeFirstOf?] at h
  | cons n rest ih =>
    cases n with
    | leaf kind content =>
      obtain ⟨rest', hrest, rfl⟩ := map_eq_some_iff.1 (changeFirstOf?_leaf f ▸ h)
      simp [filterMap_cons, ih hrest]
    | element name attrs children value =>
      rw [changeFirstOf?_element] at h
      split at h
      · cases h
        simp [hf, filterMap_cons]
      · rcases or_eq_some_iff.1 h with h | ⟨-, h⟩
        · obtain ⟨children', -, rfl⟩ := map_eq_some_iff.1 h
          simp [filterMap_cons, hg name attrs children' children]
        · obtain ⟨rest', hrest, rfl⟩ := map_eq_some_iff.1 h
          simp [filterMap_cons, ih hrest]

theorem mem_of_mem_tags_withoutOf (h : name ∈ tags (withoutOf asked l)) : name ∈ tags l := by
  induction l using forest_induction with
  | nil => exact h
  | leaf kind content rest ih => simpa using ih (by simpa using h)
  | element name' attrs children value rest ihc ihr =>
    rw [withoutOf_element] at h
    split at h
    · simp [ihr h]
    · rw [tags_element, mem_cons, mem_append] at h
      rcases h with rfl | h | h
      · simp
      · simp [ihc h]
      · simp [ihr h]

theorem mem_heads_of_withoutOf (h : name ∈ heads (withoutOf asked l)) : name ∈ heads l := by
  induction l with
  | nil => exact h
  | cons n rest ih =>
    cases n with
    | leaf kind content =>
      rw [withoutOf_leaf, heads_cons, mem_append] at h
      rw [heads_cons, mem_append]
      exact h.imp_right ih
    | element name' attrs children value =>
      rw [withoutOf_element] at h
      rw [heads_cons, mem_append]
      split at h
      · exact .inr (ih h)
      · rw [heads_cons, mem_append] at h
        exact h.imp_right ih

theorem tops_withoutOf (hasked : asked ≠ "*") (l : List Tree) :
    tops (withoutOf asked l) = (tops l).filter (· ≠ asked) := by
  induction l with
  | nil => rfl
  | cons n rest ih =>
    cases n with
    | leaf kind content => simpa using ih
    | element name attrs children value =>
      rw [withoutOf_element, isAsked_eq hasked]
      by_cases hname : asked = name
      · simpa [hname] using ih
      · simpa [hname, Ne.symm hname] using ih

end Names

@[simp] theorem name?_withChildren (n : Tree) (l : List Tree) : (n.withChildren l).name? = n.name? := by
  cases n <;> rfl

@[simp] theorem attributes_withChildren (n : Tree) (l : List Tree) :
    (n.withChildren l).attrs = n.attrs := by
  cases n <;> rfl

/-! ## Another value -/

theorem tags_withValue (v : Json.Value) (n : Tree) (rest : List Tree) :
    tags (n.withValue v :: rest) = tags (n :: rest) := by
  cases n <;> simp [withValue]

theorem name?_withFirstValue (v : Json.Value) (n : Tree) :
    (withFirstValue v n).name? = n.name? := by
  unfold withFirstValue
  split <;> simp

theorem nodeName?_withFirstValue (v : Json.Value) (n : Tree) :
    (withFirstValue v n).nodeName? = n.nodeName? := by
  unfold withFirstValue
  split <;> cases n <;> rfl

theorem heads_change {v : Json.Value} {asked : String} {l l' : List Tree}
    (h : changeFirstOf? asked (withFirstValue v) l = some l') : heads l' = heads l :=
  filterMap_change (nodeName?_withFirstValue v) (fun _ _ _ _ _ => rfl) h

theorem tops_change {v : Json.Value} {asked : String} {l l' : List Tree}
    (h : changeFirstOf? asked (withFirstValue v) l = some l') : tops l' = tops l :=
  filterMap_change (name?_withFirstValue v) (fun _ _ _ _ _ => rfl) h

theorem tags_withFirstValue (v : Json.Value) (n : Tree) : tags [withFirstValue v n] = tags [n] := by
  cases n with
  | leaf kind content => rfl
  | element name attrs children value =>
    cases children with
    | nil => simp [withFirstValue, Tree.children, withChildren]
    | cons child rest =>
      simp [withFirstValue, Tree.children, withChildren, tags_withValue]

/-! ## The first description -/

/-- The children of the first description of a forest have a property.  Nothing before it has one of
the names in `before`, and no element around it has one of the names in `around`. -/
inductive Leads (before around : List String) (p : List Tree → Prop) : List Tree → Prop
  | here {attrs children value rest} :
      p children → Leads before around p (.element "Description" attrs children value :: rest)
  | inside {name attrs children value rest} :
      name ∉ before → name ∉ around → Leads before around p children →
        Leads before around p (.element name attrs children value :: rest)
  | after {n rest} :
      (∀ name ∈ tags [n], name ∉ before) → Leads before around p rest →
        Leads before around p (n :: rest)

namespace Leads

variable {before around : List String} {p q : List Tree → Prop} {asked : String} {l l' : List Tree}

theorem mono (himp : ∀ children, p children → q children) (h : Leads before around p l) :
    Leads before around q l := by
  induction h with
  | here hp => exact .here (himp _ hp)
  | inside hname haround _ ih => exact .inside hname haround ih
  | after hclear _ ih => exact .after hclear ih

theorem exists_of_exists {α : Type} {p : α → List Tree → Prop}
    (h : Leads before around (fun children => ∃ a, p a children) l) : ∃ a, Leads before around (p a) l := by
  induction h with
  | here hp =>
    obtain ⟨a, ha⟩ := hp
    exact ⟨a, .here ha⟩
  | inside hname haround _ ih =>
    obtain ⟨a, ha⟩ := ih
    exact ⟨a, .inside hname haround ha⟩
  | after hclear _ ih =>
    obtain ⟨a, ha⟩ := ih
    exact ⟨a, .after hclear ha⟩

theorem mem_tags {name : String} (hp : ∀ children, p children → name ∈ tags children)
    (h : Leads before around p l) : name ∈ tags l := by
  induction h with
  | here hchildren => simp [hp _ hchildren]
  | inside _ _ _ ih => simp [ih]
  | after _ _ ih =>
    rw [tags_cons]
    exact mem_append_right _ ih

theorem find? (hbefore : "Description" ∈ before) (h : Leads before around p l) :
    ∃ n, (elementsOf l).find? (fun e => e.name? = some "Description") = some n ∧ p n.children := by
  induction h with
  | @here attrs children value rest hp =>
    exact ⟨.element "Description" attrs children value, by simp [elementsOf, elements, name?], hp⟩
  | @inside name attrs children value rest hname _ _ ih =>
    obtain ⟨n, hn, hp⟩ := ih
    have hne : name ≠ "Description" := fun h => hname (h ▸ hbefore)
    refine ⟨n, ?_, hp⟩
    rw [elementsOf, elements, cons_append, find?_cons_of_neg (by simp [name?, hne]),
      find?_append, hn, some_or]
  | @after n rest hclear _ ih =>
    obtain ⟨m, hm, hp⟩ := ih
    refine ⟨m, ?_, hp⟩
    rw [elementsOf, find?_append, hm, or_eq_right_of_none]
    refine find?_eq_none.2 fun e he hname => ?_
    refine hclear "Description" (mem_filterMap.2 ⟨e, ?_, by simpa using hname⟩) hbefore
    simpa [elementsOf] using he

/-- A change that concerns the description, or an element that stands neither before nor around it, is
made where the description is. -/
theorem change (hasked : asked ≠ "*") (hmem : asked ∈ before) {f : Tree → Tree}
    (hp : ∀ attrs children value, p children → ∃ children',
      changeFirst? asked f (.element "Description" attrs children value) =
        some (.element "Description" attrs children' value) ∧ q children')
    (h : Leads before around p l) :
    ∃ l', changeFirstOf? asked f l = some l' ∧ Leads before around q l' := by
  induction h with
  | @here attrs children value rest hchildren =>
    obtain ⟨children', hchange, hq⟩ := hp attrs children value hchildren
    exact ⟨_, by rw [changeFirstOf?, hchange], .here hq⟩
  | @inside name attrs children value rest hname haround _ ih =>
    obtain ⟨l', hchange, hq⟩ := ih
    have hother : asked ≠ name := fun h => hname (h ▸ hmem)
    refine ⟨.element name attrs l' value :: rest, ?_, .inside hname haround hq⟩
    simp [changeFirstOf?_element, isAsked_eq hasked, hother, hchange]
  | @after n rest hclear _ ih =>
    obtain ⟨l', hchange, hq⟩ := ih
    have hnone := (changeFirstOf?_eq_none_iff hasked f [n]).2 fun h => hclear asked h hmem
    refine ⟨n :: l', ?_, .after hclear hq⟩
    rw [← singleton_append, changeFirstOf?_append, hnone, hchange]
    rfl

theorem add (hmem : "Description" ∈ before) {child : Tree}
    (hp : ∀ children, p children → q (children ++ [child])) (h : Leads before around p l) :
    ∃ l', changeFirstOf? "Description" (append child) l = some l' ∧ Leads before around q l' :=
  h.change (by decide) hmem fun _ children _ hchildren => ⟨children ++ [child], rfl, hp _ hchildren⟩

theorem withValue (v : Json.Value) {n : Tree} (h : Leads before around p (n :: l)) :
    Leads before around p (n.withValue v :: l) := by
  cases h with
  | here hp => exact .here hp
  | inside hname haround hchildren => exact .inside hname haround hchildren
  | after hclear hrest => exact .after (tags_withValue v n [] ▸ hclear) hrest

/-- Wherever the first element of a name is, another value of it does not move the description. -/
theorem setValue (hasked : asked ≠ "*") (hne : asked ≠ "Description") {v : Json.Value}
    (hp : ∀ children children', p children →
      changeFirstOf? asked (withFirstValue v) children = some children' → p children')
    (h : Leads before around p l) (hchange : changeFirstOf? asked (withFirstValue v) l = some l') :
    Leads before around p l' := by
  induction h generalizing l' with
  | here hchildren =>
    rw [changeFirstOf?_element, isAsked_eq hasked, decide_eq_false hne] at hchange
    rcases or_eq_some_iff.1 hchange with hchange | ⟨-, hchange⟩
    · obtain ⟨children', hinside, rfl⟩ := map_eq_some_iff.1 hchange
      exact .here (hp _ _ hchildren hinside)
    · obtain ⟨rest', -, rfl⟩ := map_eq_some_iff.1 hchange
      exact .here hchildren
  | @inside name attrs children value rest hname haround hinside ih =>
    rw [changeFirstOf?_element] at hchange
    split at hchange
    · cases hchange
      cases children with
      | nil => cases hinside
      | cons child children => exact .inside hname haround (hinside.withValue v)
    · rcases or_eq_some_iff.1 hchange with hchange | ⟨-, hchange⟩
      · obtain ⟨children', hdeeper, rfl⟩ := map_eq_some_iff.1 hchange
        exact .inside hname haround (ih hdeeper)
      · obtain ⟨rest', -, rfl⟩ := map_eq_some_iff.1 hchange
        exact .inside hname haround hinside
  | @after n rest hclear hrest ih =>
    rw [← singleton_append, changeFirstOf?_append] at hchange
    rcases or_eq_some_iff.1 hchange with hchange | ⟨-, hchange⟩
    · obtain ⟨head, hhead, rfl⟩ := map_eq_some_iff.1 hchange
      obtain ⟨n', rfl⟩ : ∃ n', head = [n'] := by
        simp only [changeFirstOf?] at hhead
        cases hn : changeFirst? asked (withFirstValue v) n with
        | none => simp [hn] at hhead
        | some n' => exact ⟨n', by simpa [hn] using hhead.symm⟩
      exact .after (tags_change (tags_withFirstValue v) hhead ▸ hclear) hrest
    · obtain ⟨rest', hrest', rfl⟩ := map_eq_some_iff.1 hchange
      exact .after hclear (ih hrest')

/-- Elements that are taken away are not around the description. -/
theorem without (hasked : asked ≠ "*") (hne : asked ≠ "Description") (hmem : asked ∈ around)
    (hp : ∀ children, p children → q (withoutOf asked children)) (h : Leads before around p l) :
    Leads before around q (withoutOf asked l) := by
  induction h with
  | here hchildren =>
    rw [withoutOf_element, isAsked_eq hasked, decide_eq_false hne]
    exact .here (hp _ hchildren)
  | @inside name attrs children value rest hname haround _ ih =>
    have hother : asked ≠ name := fun h => haround (h ▸ hmem)
    rw [withoutOf_element, isAsked_eq hasked, decide_eq_false hother]
    exact .inside hname haround ih
  | @after n rest hclear _ ih =>
    cases n with
    | leaf kind content =>
      rw [withoutOf_leaf]
      exact .after hclear ih
    | element name attrs children value =>
      rw [withoutOf_element]
      split
      · exact ih
      · refine .after (fun x hx => hclear x ?_) ih
        rw [tags_element, mem_cons, mem_append] at hx ⊢
        rcases hx with rfl | hx | hx
        · exact .inl rfl
        · exact .inr (.inl (mem_of_mem_tags_withoutOf hx))
        · exact .inr (.inr hx)

end Leads

end AddonBuilder.Markup.Tree
