import AddonBuilder.Proofs.Markup.Settled

/-!
# Fields of a description

Four properties of an add-on are read from a description: its identifier, its version, its name and
whether it is unpacked.
-/

namespace AddonBuilder.Install

open Json (Value Members)
open Markup Tree List Details Option

theorem letters_joined (n : Tree) (rest : List Tree) :
    letters (joined n rest) = letters [n] ++ letters rest := by
  fun_cases joined n rest <;> simp [letters, ofText, Value.plain]

theorem letters_settledAll (l : List Tree) : letters (settledAll l) = letters l := by
  induction l with
  | nil => simp [settledAll]
  | cons n rest ih =>
    rw [settledAll, letters_joined, ih]
    cases n with
    | leaf kind content => cases kind <;> simp [letters, settled, Value.plain]
    | element name attrs children value => simp [letters, settled]

theorem note_settled (p : String) (details : Details) (n : Tree) :
    details.note p n.settled = details.note p n := by
  cases n with
  | leaf kind content => cases kind <;> simp [note, settled, nodeName?, textOf, Tree.children]
  | element name attrs children value =>
    have htext : textOf (settled (.element name attrs children value)) =
        textOf (.element name attrs children value) := by
      rw [textOf, textOf, settled]
      exact congrArg _ (letters_settledAll children)
    rw [note, htext]
    rfl

theorem foldl_note_joined (p : String) (details : Details) (n : Tree) (rest : List Tree) :
    (joined n rest).foldl (note p) details = rest.foldl (note p) (details.note p n) := by
  fun_cases joined n rest <;> simp [note, nodeName?, ofText]

theorem foldl_note_settledAll (p : String) (l : List Tree) (details : Details) :
    (settledAll l).foldl (note p) details = l.foldl (note p) details := by
  induction l generalizing details with
  | nil => simp [settledAll]
  | cons n rest ih => rw [settledAll, foldl_note_joined, ih, note_settled, foldl_cons]

theorem prefixFor_congr {d d' : Document} (h : d'.root.attrs = d.root.attrs) (address : String) :
    prefixFor d' address = prefixFor d address := by
  rw [prefixFor, h]
  rfl

theorem told_settled (d : Document) : told d.settled = told d := by
  have hprefix := @prefixFor_congr d d.settled (attributes_settled d.root)
  have hfind (name : String) : d.settled.root.elements.find? (fun n => n.name? = some name) =
      (d.root.elements.find? fun n => n.name? = some name).map settled := by
    rw [Document.settled, elements_settled, find?_map]
    refine congrArg (fun p => (d.root.elements.find? p).map settled) (funext fun n => ?_)
    rw [Function.comp_apply, name?_settled]
  rw [told, told, hprefix, hprefix, hfind]
  cases d.root.elements.find? _ with
  | none => rfl
  | some n =>
    cases n with
    | leaf kind content => simp [settled, Tree.children]
    | element name attrs children value =>
      simp [settled, Tree.children, foldl_note_settledAll]

/-! ## Fields -/

/-- The properties that are read back. -/
inductive Field where
  | id
  | version
  | name
  | unpack
deriving DecidableEq

namespace Field

def stem : Field → String
  | id => "id"
  | version => "version"
  | name => "name"
  | unpack => "unpack"

/-- The name of the element for a field. -/
def tag (f : Field) : String := "em:" ++ f.stem

def all : List Field := [id, version, name, unpack]

theorem mem_all (f : Field) : f ∈ all := by cases f <;> decide

/-- What details say about a field; a truth value is there or not. -/
def view (details : Details) : Field → Option Text
  | id => details.id
  | version => details.version
  | name => details.name
  | unpack => if details.unpack then some [] else none

def heard (t : Text) : Field → Option Text
  | unpack => if Text.lower t.display = "true" then some [] else none
  | _ => some t

theorem tag_ne_star (f : Field) : f.tag ≠ "*" := by cases f <;> decide

theorem tag_ne_description (f : Field) : f.tag ≠ "Description" := by cases f <;> decide

end Field

/-- A name without the prefix of add-on properties. -/
def stripped (name : String) : String := Text.replaceString "em:" "" name

@[simp] theorem stripped_tag (f : Field) : stripped f.tag = f.stem := by cases f <;> decide

theorem details_ext {a b : Details} (h : ∀ f : Field, f.view a = f.view b) : a = b := by
  have hid : a.id = b.id := h .id
  have hname : a.name = b.name := h .name
  have hversion : a.version = b.version := h .version
  have hunpack : a.unpack = b.unpack := by
    have hview := h .unpack
    revert hview
    simp only [Field.view]
    cases a.unpack <;> cases b.unpack <;> simp
  cases a
  cases b
  simp_all

theorem note_eq {n : Tree} {name : String} (h : n.nodeName? = some name) (details : Details) :
    details.note "em:" n = filled details (stripped name) (textOf n) := by
  rw [note, h, stripped]

theorem view_filled_of_ne {f : Field} {stem : String} (h : stem ≠ f.stem) (details : Details) (t : Text) :
    f.view (filled details stem t) = f.view details := by
  unfold filled
  split <;> cases f <;> simp_all [Field.view, Field.stem]

theorem view_filled (f : Field) (details : Details) (t : Text) :
    f.view (filled details f.stem t) = f.heard t := by
  cases f <;> simp [filled, Field.view, Field.heard, Field.stem]

/-- Only the nodes whose names are read as a field say something about it. -/
theorem view_foldl_note {f : Field} {l : List Tree} (h : ∀ name ∈ heads l, stripped name ≠ f.stem)
    (details : Details) : f.view (l.foldl (note "em:") details) = f.view details := by
  induction l generalizing details with
  | nil => rfl
  | cons n rest ih =>
    rw [heads_cons, forall_mem_append] at h
    rw [foldl_cons, ih h.2]
    cases hn : n.nodeName? with
    | none => rw [note, hn]
    | some name => rw [note_eq hn, view_filled_of_ne (h.1 name (by simp [hn]))]

/-! ## The element for a field -/

/-- An element without children or with one run of characters. -/
def Plain (children : List Tree) : Prop := children = [] ∨ ∃ v, children = [.leaf .characters v]

/-- Among some nodes, one element is read as a field and nothing else is, no instruction either; and it
is the first element of its name also if those inside the nodes are counted. -/
def Carries (f : Field) (children l : List Tree) : Prop :=
  ∃ pre attrs value post, l = pre ++ .element f.tag attrs children value :: post ∧
    f.tag ∉ tags pre ∧ ∀ name ∈ heads (pre ++ post), stripped name ≠ f.stem

theorem Plain.change_eq_none {children : List Tree} (h : Plain children) (asked : String)
    (g : Tree → Tree) : changeFirstOf? asked g children = none := by
  rcases h with rfl | ⟨v, rfl⟩
  · rfl
  · rw [changeFirstOf?_leaf]
    rfl

theorem Plain.withoutOf_eq {children : List Tree} (h : Plain children) (asked : String) :
    withoutOf asked children = children := by
  rcases h with rfl | ⟨v, rfl⟩
  · rfl
  · rw [withoutOf_leaf]
    rfl

namespace Carries

variable {f : Field} {children l l' : List Tree} {asked : String}

theorem view {v : Value} (h : Carries f [.leaf .characters v] l) (details : Details) :
    f.view (l.foldl (note "em:") details) =
      f.heard (Text.trim (fun p => Text.isBlank p.val) v.plain) := by
  obtain ⟨pre, attrs, value, post, rfl, -, hothers⟩ := h
  rw [heads_append, forall_mem_append] at hothers
  rw [foldl_append, foldl_cons, view_foldl_note hothers.2, note_eq rfl, stripped_tag,
    view_filled, textOf]
  simp [letters, Tree.children]

theorem setOwn (h : Carries f children l) (hplain : Plain children) (v : Value) :
    ∃ l', changeFirstOf? f.tag (withFirstValue v) l = some l' ∧
      Carries f [.leaf .characters v] l' := by
  obtain ⟨pre, attrs, value, post, rfl, hfirst, hothers⟩ := h
  refine ⟨_, ?_, pre, attrs, value, post, rfl, hfirst, hothers⟩
  rw [changeFirstOf?_append, (changeFirstOf?_eq_none_iff f.tag_ne_star _ pre).2 hfirst,
    changeFirstOf?_element, isAsked_eq f.tag_ne_star]
  rcases hplain with rfl | ⟨w, rfl⟩ <;> simp [withFirstValue, Tree.children, withChildren, withValue]

theorem setOther (h : Carries f children l) (hplain : Plain children) (hstar : asked ≠ "*")
    (hother : asked ≠ f.tag) {v : Value} (hset : changeFirstOf? asked (withFirstValue v) l = some l') :
    Carries f children l' := by
  obtain ⟨pre, attrs, value, post, rfl, hfirst, hothers⟩ := h
  rw [changeFirstOf?_append, changeFirstOf?_element, isAsked_eq hstar, decide_eq_false hother,
    hplain.change_eq_none] at hset
  rcases or_eq_some_iff.1 hset with hset | ⟨-, hset⟩
  · obtain ⟨pre', hpre, rfl⟩ := map_eq_some_iff.1 hset
    refine ⟨pre', attrs, value, post, rfl, ?_, ?_⟩
    · rwa [tags_change (tags_withFirstValue v) hpre]
    · rwa [heads_append, heads_change hpre, ← heads_append]
  · obtain ⟨rest, hrest, rfl⟩ := map_eq_some_iff.1 hset
    obtain ⟨post', hpost, rfl⟩ := map_eq_some_iff.1 hrest
    refine ⟨pre, attrs, value, post', rfl, hfirst, ?_⟩
    rwa [heads_append, heads_change hpost, ← heads_append]

theorem add (h : Carries f children l) {child : Tree} {name : String} (hname : child.nodeName? = some name)
    (hchild : stripped name ≠ f.stem) : Carries f children (l ++ [child]) := by
  obtain ⟨pre, attrs, value, post, rfl, hfirst, hothers⟩ := h
  refine ⟨pre, attrs, value, post ++ [child], by simp, hfirst, ?_⟩
  rw [← append_assoc, heads_append, forall_mem_append]
  refine ⟨hothers, ?_⟩
  simpa [heads, hname] using hchild

theorem without (h : Carries f children l) (hplain : Plain children) (hstar : asked ≠ "*")
    (hother : asked ≠ f.tag) : Carries f children (withoutOf asked l) := by
  obtain ⟨pre, attrs, value, post, rfl, hfirst, hothers⟩ := h
  refine ⟨withoutOf asked pre, attrs, value, withoutOf asked post, ?_,
    fun h => hfirst (mem_of_mem_tags_withoutOf h), fun name hmem => ?_⟩
  · rw [withoutOf_append, withoutOf_element, isAsked_eq hstar, decide_eq_false hother,
      hplain.withoutOf_eq]
    rfl
  · rw [← withoutOf_append] at hmem
    exact hothers name (mem_heads_of_withoutOf hmem)

end Carries

/-! ## The document around it -/

/-- The names that do not stand before the first description or around it. -/
def reserved : List String := "Description" :: Field.all.map Field.tag

/-- The names of the properties that are taken away where a package does not use them. -/
def removable : List String := ["em:updateURL", "em:optionsType", "em:optionsURL", "em:homepageURL"]

theorem mem_reserved (f : Field) : f.tag ∈ reserved :=
  mem_cons_of_mem _ (mem_map_of_mem f.mem_all)

/-- A name that is neither reserved nor asks for all names. -/
def Other (name : String) : Prop := name ∉ "*" :: reserved

namespace Other

variable {name : String}

instance : Decidable (Other name) := inferInstanceAs (Decidable (name ∉ _))

theorem star (h : Other name) : name ≠ "*" := ne_of_not_mem_cons h

theorem description (h : Other name) : name ≠ "Description" :=
  ne_of_not_mem_cons (not_mem_of_not_mem_cons h)

theorem tag (h : Other name) (f : Field) : name ≠ f.tag :=
  fun heq => not_mem_of_not_mem_cons h (heq ▸ mem_reserved f)

theorem of_mem_removable : ∀ name ∈ removable, Other name := by decide

end Other

/-- A document whose first description is found both where it is edited and where it is read, and
whose children there have a property. -/
structure Led (p : List Tree → Prop) (d : Document) : Prop where
  root : d.root.name? ≠ some "Description"
  em : prefixFor d "http://www.mozilla.org/2004/em-rdf#" = "em:"
  rdf : prefixFor d "http://www.w3.org/1999/02/22-rdf-syntax-ns#" = ""
  leads : Leads reserved removable p d.root.children

/-- Setting a field changes the first element of its name. -/
theorem set_eq_ok {d d' : Document} {name : String} {v : Value} (h : set d name v = .ok d') :
    ∃ l, changeFirstOf? name (withFirstValue v) d.root.children = some l ∧
      d' = withRootChildren d l := by
  unfold set at h
  cases hnamed : d.root.named name with
  | nil => simp [hnamed] at h
  | cons n rest =>
    cases hl : changeFirstOf? name (withFirstValue v) d.root.children with
    | none =>
      simp only [hnamed, hl] at h
      split at h <;> cases h
    | some l =>
      simp only [hnamed, hl] at h
      split at h <;> cases h <;> exact ⟨l, rfl, rfl⟩

theorem exists_set_text {d : Document} {name : String} (hstar : name ≠ "*")
    (hmem : name ∈ tags d.root.children) (t : Text) : ∃ d', set d name (.text t) = .ok d' := by
  obtain ⟨l, hl⟩ := ne_none_iff_exists'.1
    fun h => (changeFirstOf?_eq_none_iff hstar (withFirstValue (.text t)) d.root.children).1 h hmem
  obtain ⟨e, he, hname⟩ := mem_filterMap.1 hmem
  have hnamed : e ∈ d.root.named name := mem_filter.2 ⟨he, by simp [hname, isAsked]⟩
  refine ⟨withRootChildren d l, ?_⟩
  obtain ⟨n, rest, hcons⟩ := exists_cons_of_ne_nil (ne_nil_of_mem hnamed)
  unfold set
  cases hchildren : n.children <;> simp [hcons, hchildren, hl]

namespace Led

variable {p q : List Tree → Prop} {d d' : Document} {name : String}

theorem mono (himp : ∀ l, p l → q l) (h : Led p d) : Led q d :=
  ⟨h.root, h.em, h.rdf, h.leads.mono himp⟩

theorem withRootChildren (h : Led p d) {l : List Tree} (hl : Leads reserved removable q l) :
    Led q (withRootChildren d l) where
  root := by simpa [Install.withRootChildren] using h.root
  em := (prefixFor_congr (attributes_withChildren d.root l) _).trans h.em
  rdf := (prefixFor_congr (attributes_withChildren d.root l) _).trans h.rdf
  leads := by
    have hleads := h.leads
    cases hroot : d.root with
    | leaf kind content =>
      rw [hroot] at hleads
      cases hleads
    | element name attrs children value =>
      simpa [Install.withRootChildren, hroot, withChildren, Tree.children] using hl

theorem remove (h : Led p d) (hname : name ∈ removable)
    (hp : ∀ l, p l → q (withoutOf name l)) : Led q (remove d name) := by
  have hother := Other.of_mem_removable name hname
  exact h.withRootChildren (h.leads.without hother.star hother.description hname hp)

theorem addToFirst (h : Led p d) {child : Tree} (hp : ∀ l, p l → q (l ++ [child])) :
    ∃ d', addToFirst d child = .ok d' ∧ Led q d' := by
  obtain ⟨l, hl, hleads⟩ := h.leads.add (by decide) hp
  exact ⟨_, by rw [Install.addToFirst, hl], h.withRootChildren hleads⟩

theorem set (h : Led p d) (hstar : name ≠ "*") (hne : name ≠ "Description") {v : Value}
    (hp : ∀ l l', p l → changeFirstOf? name (withFirstValue v) l = some l' → p l')
    (hset : set d name v = .ok d') : Led p d' := by
  obtain ⟨l, hl, rfl⟩ := set_eq_ok hset
  exact h.withRootChildren (h.leads.setValue hstar hne hp hl)

/-- The details are what the fields of the description carry. -/
theorem told {v : Field → Value} (h : ∀ f, Led (Carries f [.leaf .characters (v f)]) d) :
    ∃ details, told d = .ok details ∧
      ∀ f : Field, f.view details = f.heard (Text.trim (fun p => Text.isBlank p.val) (v f).plain) := by
  have hroot := (h .id).root
  have hfirst (f : Field) := (h f).leads.find? (by decide)
  obtain ⟨n, hn, -⟩ := hfirst .id
  have hfind : d.root.elements.find? (fun e => e.name? = some "Description") = some n := by
    cases hd : d.root with
    | leaf kind content =>
      rw [hd] at hn
      cases hn
    | element name attrs children value =>
      rw [hd] at hn hroot
      rw [elements, find?_cons_of_neg (by simpa using hroot)]
      exact hn
  refine ⟨n.children.foldl (note "em:") {}, ?_, fun f => ?_⟩
  · rw [Install.told, (h .id).em, (h .id).rdf, String.empty_append, hfind]
    rfl
  · obtain ⟨m, hm, hcarries⟩ := hfirst f
    obtain rfl : n = m := some.inj (hn.symm.trans hm)
    exact hcarries.view {}

end Led

end AddonBuilder.Install
