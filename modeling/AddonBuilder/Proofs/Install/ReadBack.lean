import AddonBuilder.Proofs.Install.Fields
import AddonBuilder.Proofs.Outcome
import Mathlib.Logic.Relation

/-!
# Descriptions read back

A description is made from a template by setting the properties that every package states and then
by edits (`Edit`), none of which touches a field (`led_edit`).
-/

namespace AddonBuilder.Install

open Json (Value Members)
open Markup Tree Relation List

/-! ## Making a description -/

variable {v : Value} {l : List (String × Value)} {r : Request} {cfg : Members}
  {items : List Value} {list : Option Value} {asked ownPage : Bool} {template : Document}

/-- A step after the fields have been set: a property of another name gets a value, a property is taken
away, or the description gets an element that is not read as a field. -/
inductive Edit : Document → Document → Prop
  | set {d d' name v} : Other name → set d name v = .ok d' → Edit d d'
  | remove {d name} : name ∈ removable → Edit d (remove d name)
  | add {d d' child name} : child.nodeName? = some name → (∀ f : Field, stripped name ≠ f.stem) →
      addToFirst d child = .ok d' → Edit d d'

section Steps

variable {f : Field} {children : List Tree} {d d' : Document}

theorem led_setOther (hplain : Plain children) (h : Led (Carries f children) d) {name : String}
    (hstar : name ≠ "*") (hne : name ≠ "Description") (hother : name ≠ f.tag)
    (hset : set d name v = .ok d') : Led (Carries f children) d' :=
  h.set hstar hne (fun _ _ hl hl' => hl.setOther hplain hstar hother hl') hset

/-- Edits of other elements keep what a field carries. -/
theorem led_edit (hplain : Plain children) (h : Led (Carries f children) d) (hedit : Edit d d') :
    Led (Carries f children) d' := by
  cases hedit with
  | set hother hset => exact led_setOther hplain h hother.star hother.description (hother.tag f) hset
  | remove hname =>
    have hother := Other.of_mem_removable _ hname
    exact h.remove hname fun l hl => hl.without hplain hother.star (hother.tag f)
  | add hname hchild hadd =>
    obtain ⟨e, he, hled⟩ := h.addToFirst fun l hl => hl.add hname (hchild f)
    cases hadd.symm.trans he
    exact hled

theorem led_edits (hplain : Plain children) (h : Led (Carries f children) d)
    (hedits : ReflTransGen Edit d d') : Led (Carries f children) d' := by
  induction hedits with
  | refl => exact h
  | tail _ hedit ih => exact led_edit hplain ih hedit

theorem led_setOwn (hplain : Plain children) (h : Led (Carries f children) d)
    (hset : set d f.tag v = .ok d') : Led (Carries f [.leaf .characters v]) d' := by
  obtain ⟨l, hl, rfl⟩ := set_eq_ok hset
  obtain ⟨l', hl', hleads⟩ := h.leads.change f.tag_ne_star (mem_reserved f) fun attrs _ value hc => by
    obtain ⟨c', hc', hcarries⟩ := hc.setOwn hplain v
    refine ⟨c', ?_, hcarries⟩
    rw [changeFirst?, isAsked_eq f.tag_ne_star, decide_eq_false f.tag_ne_description, hc']
    rfl
  cases hl.symm.trans hl'
  exact h.withRootChildren hleads

theorem led_setAll (hplain : Plain children) (h : Led (Carries f children) d)
    (hl : ∀ e ∈ l, e.1 ∉ ["*", "Description", f.tag])
    (hset : setAll d l = .ok d') : Led (Carries f children) d' := by
  induction l generalizing d with
  | nil =>
    cases hset
    exact h
  | cons e l ih =>
    rw [forall_mem_cons] at hl
    obtain ⟨d₁, hd₁, hset⟩ := bind_ok_iff.1 hset
    have hne : e.1 ≠ "*" ∧ e.1 ≠ "Description" ∧ e.1 ≠ f.tag := by simpa using hl.1
    exact ih (led_setOther hplain h hne.1 hne.2.1 hne.2.2 hd₁) hl.2 hset

def stated (r : Request) (cfg : Members) (name : Value) : Field → Value
  | .id => .text r.id
  | .version => (Assoc.get? cfg "version").getD (Value.str "1.0")
  | .name => (Assoc.get? cfg "title").getD ((Assoc.get? cfg "fullName").getD name)
  | .unpack => truth ((Assoc.get? cfg "unpack").any Value.isGiven)

theorem properties_eq (r : Request) (cfg : Members) (name : Value) (f : Field) :
    ∃ before after, properties r cfg name = before ++ (f.tag, stated r cfg name f) :: after ∧
      ∀ e ∈ before ++ after, e.1 ∉ ["*", "Description", f.tag] := by
  cases f with
  | id => exact ⟨[], _, rfl, by simp [Field.tag, Field.stem]⟩
  | version => exact ⟨[_], _, rfl, by simp [Field.tag, Field.stem]⟩
  | name => exact ⟨[_, _], _, rfl, by simp [Field.tag, Field.stem]⟩
  | unpack => exact ⟨[_, _, _, _, _, _], [], rfl, by simp [Field.tag, Field.stem]⟩

theorem led_properties (hplain : Plain children) (h : Led (Carries f children) d)
    {name : Value} (hset : setAll d (properties r cfg name) = .ok d') :
    Led (Carries f [.leaf .characters (stated r cfg name f)]) d' := by
  obtain ⟨before, after, hproperties, hothers⟩ := properties_eq r cfg name f
  rw [forall_mem_append] at hothers
  rw [hproperties, setAll, foldlM_append] at hset
  obtain ⟨d₁, hd₁, hset⟩ := bind_ok_iff.1 hset
  obtain ⟨d₂, hd₂, hset⟩ := bind_ok_iff.1 hset
  have hbefore := led_setAll hplain h hothers.1 hd₁
  exact led_setAll (.inr ⟨_, rfl⟩) (led_setOwn hplain hbefore hd₂) hothers.2 hset

end Steps

section Sequence

variable {d d' : Document} {name : String}

theorem addEach_some (h : v.elements? = some items) :
    addEach d name (some v) = items.foldlM (addItem name) d := by
  simp only [addEach, h]

theorem edits_addItems (hname : ∀ f : Field, stripped name ≠ f.stem)
    (h : items.foldlM (addItem name) d = .ok d') : ReflTransGen Edit d d' := by
  induction items generalizing d with
  | nil =>
    cases h
    exact .refl
  | cons item items ih =>
    obtain ⟨d₁, hd₁, hrest⟩ := bind_ok_iff.1 h
    cases item with
    | text t => exact .head (.add rfl hname hd₁) (ih hrest)
    | _ => cases hd₁

theorem edits_addEach (hname : ∀ f : Field, stripped name ≠ f.stem)
    (h : addEach d name list = .ok d') : ReflTransGen Edit d d' := by
  cases list with
  | none =>
    cases h
    exact .refl
  | some v =>
    cases hv : v.elements? with
    | none => simp [addEach, hv] at h
    | some items => exact edits_addItems hname (addEach_some hv ▸ h)

theorem edits_setOrRemove (hname : name ∈ removable) {v : Option Value}
    (h : setOrRemove d name v = .ok d') : ReflTransGen Edit d d' := by
  unfold setOrRemove at h
  split at h
  · exact .single (.set (Other.of_mem_removable name hname) h)
  · cases h
    exact .single (.remove hname)

theorem edits_withOptions (h : withOptions d asked ownPage = .ok d') : ReflTransGen Edit d d' := by
  cases asked with
  | false =>
    cases h
    exact .tail (.single (.remove (by decide))) (.remove (by decide))
  | true =>
    obtain ⟨d₁, hd₁, h⟩ := bind_ok_iff.1 h
    obtain ⟨d₂, hd₂, h⟩ := bind_ok_iff.1 h
    have hset : ReflTransGen Edit d d₂ :=
      .tail (.single (.set (by decide) hd₁)) (.set (by decide) hd₂)
    cases ownPage with
    | false =>
      cases h
      exact hset
    | true =>
      cases h
      exact hset.tail (.remove (by decide))

theorem edits_finished (h : finished d ownPage cfg r = .ok d') : ReflTransGen Edit d d' := by
  obtain ⟨d₁, h₁, h⟩ := bind_ok_iff.1 h
  obtain ⟨d₂, h₂, h⟩ := bind_ok_iff.1 h
  obtain ⟨d₃, h₃, h⟩ := bind_ok_iff.1 h
  obtain ⟨d₄, h₄, h⟩ := bind_ok_iff.1 h
  obtain ⟨d₅, h₅, h⟩ := bind_ok_iff.1 h
  obtain ⟨d₆, h₆, h⟩ := bind_ok_iff.1 h
  have hmobile : ReflTransGen Edit d₅ d₆ := by
    unfold withMobile at h₆
    split at h₆
    · exact .single (.add rfl (by intro f; cases f <;> decide) h₆)
    · cases h₆
      exact .refl
  have hlist (name : String) (hname : name ∈ ["em:translator", "em:developer", "em:contributor"])
      (f : Field) : stripped name ≠ f.stem := by
    revert name
    cases f <;> decide
  exact (edits_addEach (hlist _ (by simp)) h₁).trans <| (edits_addEach (hlist _ (by simp)) h₂).trans <|
    (edits_addEach (hlist _ (by simp)) h₃).trans <| (edits_setOrRemove (by decide) h₄).trans <|
    (edits_withOptions h₅).trans <| hmobile.trans <| edits_setOrRemove (by decide) h

theorem describe_eq (hname : Assoc.get? cfg "name" = some v) :
    describe template ownPage cfg r =
      setAll template (properties r cfg v) >>= fun d => finished d ownPage cfg r := by
  unfold describe
  rw [hname]
  simp [setAll, properties]

end Sequence

/-- A template: its first description has one element for each field. -/
def IsTemplate (d : Document) : Prop :=
  Led (fun l => ∀ f : Field, ∃ children, Plain children ∧ Carries f children l) d

theorem IsTemplate.field {d : Document} (h : IsTemplate d) (f : Field) :
    ∃ children, Plain children ∧ Led (Carries f children) d := by
  obtain ⟨children, hleads⟩ := (h.leads.mono fun l hl => hl f).exists_of_exists
  obtain ⟨n, -, hplain, -⟩ := hleads.find? (by decide)
  exact ⟨children, hplain, h.root, h.em, h.rdf, hleads.mono fun l hl => hl.2⟩

/-- What a description says, whatever else was asked for. -/
theorem led_describe {d : Document}
    (htemplate : IsTemplate template) (h : describe template ownPage cfg r = .ok d) :
    ∃ name, Assoc.get? cfg "name" = some name ∧
      ∀ f, Led (Carries f [.leaf .characters (stated r cfg name f)]) d := by
  cases hname : Assoc.get? cfg "name" with
  | none =>
    unfold describe at h
    rw [hname] at h
    obtain ⟨_, _, h⟩ := bind_ok_iff.1 h
    obtain ⟨_, _, h⟩ := bind_ok_iff.1 h
    cases h
  | some name =>
    rw [describe_eq hname] at h
    obtain ⟨d₁, hset, hrest⟩ := bind_ok_iff.1 h
    refine ⟨name, rfl, fun f => led_edits (.inr ⟨_, rfl⟩) ?_ (edits_finished hrest)⟩
    obtain ⟨children, hplain, hled⟩ := htemplate.field f
    exact led_properties hplain hled hset

/-! ## When a description is made -/

/-- Some names stand at the top of a forest. -/
def Has (names : List String) (l : List Tree) : Prop := ∀ name ∈ names, name ∈ tops l

section Made

variable {d : Document} {names : List String} {name : String}

theorem exists_set (h : Led (Has names) d) (hname : name ∉ ["*", "Description"]) (hmem : name ∈ names)
    (hv : ∃ t, v = .text t) : ∃ d', set d name v = .ok d' ∧ Led (Has names) d' := by
  obtain ⟨t, rfl⟩ := hv
  have hne : name ≠ "*" ∧ name ≠ "Description" := by simpa using hname
  have htags := h.leads.mem_tags fun l hl => mem_tags_of_mem_tops (hl name hmem)
  obtain ⟨d', hd'⟩ := exists_set_text hne.1 htags t
  refine ⟨d', hd', h.set hne.1 hne.2 (fun l l' hl hl' => ?_) hd'⟩
  rwa [Has, tops_change hl']

theorem exists_setAll (h : Led (Has names) d)
    (hl : ∀ e ∈ l, e.1 ∉ ["*", "Description"] ∧ e.1 ∈ names ∧ ∃ t, e.2 = .text t) :
    ∃ d', setAll d l = .ok d' ∧ Led (Has names) d' := by
  induction l generalizing d with
  | nil => exact ⟨d, rfl, h⟩
  | cons e l ih =>
    rw [forall_mem_cons] at hl
    obtain ⟨d₁, hd₁, h⟩ := exists_set h hl.1.1 hl.1.2.1 hl.1.2.2
    obtain ⟨d', hd', h⟩ := ih h hl.2
    exact ⟨d', bind_ok_iff.2 ⟨d₁, hd₁, hd'⟩, h⟩

theorem exists_addToFirst (h : Led (Has names) d) (child : Tree) :
    ∃ d', addToFirst d child = .ok d' ∧ Led (Has names) d' :=
  h.addToFirst fun l hl name hmem => by simp [hl name hmem]

theorem exists_addEach (h : Led (Has names) d) (name : String)
    (hlist : ∀ v, list = some v → ∃ items, v.elements? = some items ∧ ∀ i ∈ items, ∃ t, i = .text t) :
    ∃ d', addEach d name list = .ok d' ∧ Led (Has names) d' := by
  cases list with
  | none => exact ⟨d, rfl, h⟩
  | some v =>
    obtain ⟨items, hitems, htexts⟩ := hlist v rfl
    rw [addEach_some hitems]
    clear hitems
    induction items generalizing d with
    | nil => exact ⟨d, rfl, h⟩
    | cons item items ih =>
      rw [forall_mem_cons] at htexts
      obtain ⟨t, rfl⟩ := htexts.1
      obtain ⟨d₁, hd₁, h⟩ := exists_addToFirst h (.tag name [.ofText t])
      obtain ⟨d', hd', h⟩ := ih h htexts.2
      exact ⟨d', bind_ok_iff.2 ⟨d₁, hd₁, hd'⟩, h⟩

theorem led_remove (h : Led (Has names) d) (hname : name ∈ removable) :
    Led (Has (names.filter (· ≠ name))) (remove d name) := by
  refine h.remove hname fun l hl x hx => ?_
  rw [tops_withoutOf (Other.of_mem_removable name hname).star]
  obtain ⟨hmem, hne⟩ := mem_filter.1 hx
  exact mem_filter.2 ⟨hl x hmem, hne⟩

theorem Led.filter (h : Led (Has names) d) (p : String → Bool) : Led (Has (names.filter p)) d :=
  h.mono fun _ hl name hmem => hl name (mem_filter.1 hmem).1

theorem exists_setOrRemove (h : Led (Has names) d) (hname : name ∈ removable) {v : Option Value}
    (hv : ∀ v', v = some v' → name ∈ names ∧ ∃ t, v' = .text t) :
    ∃ d', setOrRemove d name v = .ok d' ∧ Led (Has (names.filter (· ≠ name))) d' := by
  cases v with
  | none => exact ⟨_, rfl, led_remove h hname⟩
  | some v =>
    have hother := Other.of_mem_removable name hname
    have hne : name ∉ ["*", "Description"] := by simp [hother.star, hother.description]
    obtain ⟨hmem, htext⟩ := hv v rfl
    obtain ⟨d', hd', h⟩ := exists_set h hne hmem htext
    exact ⟨d', hd', h.filter _⟩

theorem exists_withOptions (h : Led (Has names) d) (ownPage : Bool)
    (hasked : asked → "em:optionsType" ∈ names ∧ "em:optionsURL" ∈ names) :
    ∃ d', withOptions d asked ownPage = .ok d' ∧
      Led (Has ((names.filter (· ≠ "em:optionsType")).filter (· ≠ "em:optionsURL"))) d' := by
  cases asked with
  | false => exact ⟨_, rfl, led_remove (led_remove h (by decide)) (by decide)⟩
  | true =>
    obtain ⟨htype, haddress⟩ := hasked rfl
    obtain ⟨d₁, hd₁, h⟩ := exists_set h (by decide) htype ⟨_, rfl⟩
    obtain ⟨d₂, hd₂, h⟩ := exists_set h (by decide) haddress ⟨_, rfl⟩
    refine ⟨if ownPage then remove d₂ "em:optionsURL" else d₂,
      bind_ok_iff.2 ⟨d₁, hd₁, bind_ok_iff.2 ⟨d₂, hd₂, rfl⟩⟩, ?_⟩
    cases ownPage with
    | false => exact (h.filter _).filter _
    | true => exact led_remove (h.filter _) (by decide)

end Made

/-- The names of the elements that a package needs in a template. -/
def needed (cfg : Members) (r : Request) : List String :=
  let given (key : String) := (Assoc.get? cfg key).filter Value.isGiven
  Field.all.map Field.tag ++ ["em:description", "em:creator", "em:bootstrap"] ++
    (if ((r.updateAddress.map Value.text).filter Value.isGiven).isSome then ["em:updateURL"] else []) ++
    (if (given "preferences").isSome then ["em:optionsType", "em:optionsURL"] else []) ++
    (if (given "homepage").isSome then ["em:homepageURL"] else [])

/-- A template and a package from which a description can be made. -/
structure Furnished (template : Document) (cfg : Members) (r : Request) : Prop where
  name : (Assoc.get? cfg "name").isSome
  texts : ∀ key ∈ ["description", "author"], ∀ v, Assoc.get? cfg (Text.ofString key) = some v →
    ∃ t, v = .text t
  homepage : ∀ v, Assoc.get? cfg "homepage" = some v → v.isGiven = true → ∃ t, v = .text t
  lists : ∀ key ∈ ["translators", "developers", "contributors"], ∀ v,
    Assoc.get? cfg (Text.ofString key) = some v →
      ∃ items, v.elements? = some items ∧ ∀ i ∈ items, ∃ t, i = .text t
  elements : Led (Has (needed cfg r)) template

namespace Furnished

variable {template d : Document} {cfg : Members} {r : Request}

theorem exists_finished (h : Furnished template cfg r) (hd : Led (Has (needed cfg r)) d)
    (ownPage : Bool) : ∃ d', finished d ownPage cfg r = .ok d' := by
  obtain ⟨d₁, h₁, hd⟩ := exists_addEach hd "em:translator" (h.lists "translators" (by simp))
  obtain ⟨d₂, h₂, hd⟩ := exists_addEach hd "em:developer" (h.lists "developers" (by simp))
  obtain ⟨d₃, h₃, hd⟩ := exists_addEach hd "em:contributor" (h.lists "contributors" (by simp))
  obtain ⟨d₄, h₄, hd⟩ : ∃ d₄, setOrRemove d₃ "em:updateURL"
      ((r.updateAddress.map Value.text).filter Value.isGiven) = .ok d₄ ∧ Led (Has _) d₄ :=
    exists_setOrRemove hd (by decide) fun v hv => by
      obtain ⟨t, -, rfl⟩ := Option.map_eq_some_iff.1 (Option.filter_eq_some_iff.1 hv).1
      exact ⟨by simp [needed, hv], t, rfl⟩
  obtain ⟨d₅, h₅, hd⟩ : ∃ d₅, withOptions d₄
      ((Assoc.get? cfg "preferences").filter Value.isGiven).isSome ownPage = .ok d₅ ∧
        Led (Has _) d₅ :=
    exists_withOptions hd ownPage fun hasked => by
      constructor <;> simp [needed, hasked, mem_filter]
  obtain ⟨d₆, h₆, hd⟩ : ∃ d₆, withMobile d₅ r.mobile = .ok d₆ ∧ Led (Has _) d₆ := by
    unfold withMobile
    split
    · exact exists_addToFirst hd mobileApplication
    · exact ⟨d₅, rfl, hd⟩
  obtain ⟨d₇, h₇, -⟩ : ∃ d₇, setOrRemove d₆ "em:homepageURL"
      ((Assoc.get? cfg "homepage").filter Value.isGiven) = .ok d₇ ∧ Led (Has _) d₇ :=
    exists_setOrRemove hd (by decide) fun v hv => by
      obtain ⟨hmem, hgiven⟩ := Option.filter_eq_some_iff.1 hv
      exact ⟨by simp [needed, hv, mem_filter], h.homepage v hmem hgiven⟩
  refine ⟨d₇, ?_⟩
  simp only [finished, h₁, h₂, h₃, h₄, h₅, h₆, ok_bind]
  exact h₇

theorem exists_describe (h : Furnished template cfg r) (ownPage : Bool) {name : Value}
    (hname : Assoc.get? cfg "name" = some name)
    (hstated : ∀ f : Field, ∃ t, stated r cfg name f = .text t) :
    ∃ d, describe template ownPage cfg r = .ok d := by
  have htext (key : String) (hkey : key ∈ ["description", "author"]) :
      ∃ t, (Assoc.get? cfg (Text.ofString key)).getD (Value.str "") = .text t := by
    cases hv : Assoc.get? cfg (Text.ofString key) with
    | none => exact ⟨_, rfl⟩
    | some v => exact h.texts key hkey v hv
  have hvalues : ∀ e ∈ properties r cfg name, ∃ t, e.2 = .text t := by
    simp only [properties, forall_mem_cons, not_mem_nil, false_implies, implies_true, and_true]
    exact ⟨hstated .id, hstated .version, hstated .name, htext "description" (by simp),
      htext "author" (by simp), ⟨_, rfl⟩, hstated .unpack⟩
  have hnames : ∀ e ∈ properties r cfg name, e.1 ∉ ["*", "Description"] ∧ e.1 ∈ needed cfg r := by
    simp [properties, needed, Field.all, Field.tag, Field.stem]
  obtain ⟨d₁, h₁, hd⟩ := exists_setAll h.elements fun e he =>
    ⟨(hnames e he).1, (hnames e he).2, hvalues e he⟩
  obtain ⟨d, hd⟩ := h.exists_finished hd ownPage
  exact ⟨d, by rw [describe_eq hname, h₁, ok_bind, hd]⟩

end Furnished

/-! ## The description of a package is read back -/

theorem describeFrom_eq {files : Files} {dir : String} {bytes : Bytes}
    (hfile : files.read? (Path.join dir fileName) = some bytes)
    (hread : Markup.read bytes = .ok template) (cfg : Members) (r : Request) :
    describeFrom files dir cfg r =
      describe template (files.contains (Path.join dir "options.xul")) cfg r := by
  simp only [describeFrom, hfile, hread]
  rfl

theorem stated_name {name : Text} (hv : Assoc.get? cfg "name" = some v)
    (hname : (Assoc.get? cfg "title").or
      ((Assoc.get? cfg "fullName").or (Assoc.get? cfg "name")) = some (.text name)) :
    stated r cfg v .name = .text name := by
  rw [hv] at hname
  rw [stated]
  cases htitle : Assoc.get? cfg "title" with
  | some title => simpa [htitle] using hname
  | none =>
    cases hfull : Assoc.get? cfg "fullName" <;> simpa [htitle, hfull] using hname

theorem heard_truth (b : Bool) :
    Field.heard (Text.trim (fun p => Text.isBlank p.val) (truth b).plain) .unpack =
      if b then some [] else none := by
  cases b <;> decide

def comesBack (x : Except Fault Document) : Bool :=
  x.toOption.any fun d => d.write.toOption.any fun t => (scanned? t).any d.settled.same

theorem bytes_of_write {d : Document} {t : Text} {bytes : Bytes} (ht : d.write = .ok t)
    (hbytes : Codec.encodeUtf8? t = some bytes) : d.bytes = .ok bytes := by
  rw [Document.bytes, ht, ok_bind, hbytes]
  rfl

theorem comesBack_of_eq_true {x : Except Fault Document} (h : comesBack x) {d : Document}
    (hd : x = .ok d) : d.ComesBack := by
  subst hd
  obtain ⟨t, ht, h⟩ : ∃ t, d.write.toOption = some t ∧ (scanned? t).any d.settled.same :=
    (Option.any_eq_true ..).1 h
  obtain ⟨e, he, h⟩ := (Option.any_eq_true ..).1 h
  obtain ⟨bytes, hbytes, hread⟩ := read_of_scanned? he
  exact ⟨bytes, bytes_of_write (toOption_eq_some_iff.1 ht) hbytes, Document.eq_of_same h ▸ hread⟩

/-- The children of a description in which an element of the name of a field stands deeper as well. -/
def sampleChildren : List Tree :=
  [.tag "em:id" [], .tag "em:version" [.ofText "0"], .tag "a" [.tag "em:id" []], .tag "em:name" [],
   .tag "em:unpack" [], .tag "em:description" [], .tag "em:creator" [], .tag "em:bootstrap" []]

/-- A template in which the root has some attributes and the description has others. -/
def sampleTemplate (outer inner : List (String × Text)) : Document :=
  { root := .element "R" outer [.element "Description" inner sampleChildren none] none }

/-- The attribute that binds the prefix of add-on properties. -/
def emBinding : String × Text := ("xmlns:em", "http://www.mozilla.org/2004/em-rdf#")

def sampleBytes : Bytes := (sampleTemplate [emBinding] []).bytes.toOption.getD []

/-- A directory with a template. -/
def sampleFiles : Files where
  tree := [(["t"], .dir), (["t", "install.rdf"], .file sampleBytes)]

/-- A package with two names and a translator. -/
def sampleConfig : Members :=
  [("name", Value.str "n"), ("title", Value.str "T"), ("unpack", .bool true),
   ("translators", .array [Value.str "&"])]

theorem carries_sampleChildren (f : Field) : ∃ children, Plain children ∧ Carries f children sampleChildren := by
  cases f with
  | id => exact ⟨_, .inl rfl, [], _, _, _, rfl, by decide, by decide⟩
  | version => exact ⟨_, .inr ⟨_, rfl⟩, [_], _, _, _, rfl, by decide, by decide⟩
  | name => exact ⟨_, .inl rfl, [_, _, _], _, _, _, rfl, by decide, by decide⟩
  | unpack => exact ⟨_, .inl rfl, [_, _, _, _], _, _, _, rfl, by decide, by decide⟩

theorem led_sampleTemplate {p : List Tree → Prop} (h : p sampleChildren) :
    Led p (sampleTemplate [emBinding] []) :=
  ⟨by decide, by decide, by decide, .here h⟩

theorem furnished_sampleTemplate :
    Furnished (sampleTemplate [emBinding] []) sampleConfig { id := "j@x" } := by
  have hnone : ∀ key ∈ ["description", "author", "homepage", "developers", "contributors"],
      (Assoc.get? sampleConfig (Text.ofString key)).isNone := by decide
  have htranslators : Assoc.get? sampleConfig "translators" = some (.array [Value.str "&"]) := rfl
  simp only [forall_mem_cons, Option.isNone_iff_eq_none] at hnone
  refine ⟨rfl, ?_, ?_, ?_, led_sampleTemplate (by unfold Has; decide)⟩
  · simp [hnone]
  · simp [hnone]
  · simp [hnone, htranslators, Value.elements?, Value.str]

theorem read_sampleBytes : Markup.read sampleBytes = .ok (sampleTemplate [emBinding] []) := by
  have hscanned : ((sampleTemplate [emBinding] []).write.toOption.bind scanned?).any
      (sampleTemplate [emBinding] []).same := by
    decide +kernel
  obtain ⟨e, he, hsame⟩ := (Option.any_eq_true ..).1 hscanned
  obtain ⟨t, ht, he⟩ := Option.bind_eq_some_iff.1 he
  obtain rfl := Document.eq_of_same hsame
  obtain ⟨bytes, hbytes, hread⟩ := read_of_scanned? he
  rw [sampleBytes, bytes_of_write (toOption_eq_some_iff.1 ht) hbytes]
  exact hread

end AddonBuilder.Install
