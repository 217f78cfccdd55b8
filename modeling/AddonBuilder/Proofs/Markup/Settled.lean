import AddonBuilder.Proofs.Markup.Edits
import AddonBuilder.Proofs.Text.Utf8

/-!
# What comes back from reading

A document made by edits is not quite what is read where it has been written: runs of characters
come back as one, empty runs are gone, and a value comes back as its text.
-/

namespace AddonBuilder.Markup

open Json (Value)

/-- A node before a forest, as both are read: a run of characters joins the one that follows, and
without a character there is nothing to read. -/
def joined : Tree → List Tree → List Tree
  | .leaf .characters (.text []), rest => rest
  | .leaf .verbatim (.text []), rest => rest
  | .leaf .characters (.text t), .leaf .characters (.text u) :: rest => .ofText (t ++ u) :: rest
  | n, rest => n :: rest

namespace Tree

mutual

/-- What is read back: every leaf is text, and values are forgotten. -/
def settled : Tree → Tree
  | leaf kind content => leaf kind (.text content.plain)
  | element name attrs children _ => element name attrs (settledAll children) none

def settledAll : List Tree → List Tree
  | [] => []
  | n :: rest => joined n.settled (settledAll rest)

end

@[simp] theorem name?_settled (n : Tree) : n.settled.name? = n.name? := by
  cases n <;> simp [settled, name?]

@[simp] theorem attributes_settled (n : Tree) : n.settled.attrs = n.attrs := by
  cases n <;> simp [settled, attrs]

theorem elementsOf_joined (n : Tree) (rest : List Tree) :
    elementsOf (joined n rest) = n.elements ++ elementsOf rest := by
  fun_cases joined n rest <;> simp [elementsOf, elements, ofText]

theorem elementsOf_settledAll (l : List Tree) : elementsOf (settledAll l) = (elementsOf l).map settled := by
  induction l using forest_induction with
  | nil => simp [settledAll, elementsOf]
  | leaf kind content rest ih => simp [settledAll, elementsOf_joined, settled, elements, elementsOf, ih]
  | element name attrs children value rest ihc ihr =>
    simp [settledAll, elementsOf_joined, settled, elements, elementsOf, ihc, ihr]

theorem elements_settled (n : Tree) : n.settled.elements = n.elements.map settled := by
  cases n with
  | leaf kind content => simp [settled, elements]
  | element name attrs children value => simp [settled, elements, elementsOf_settledAll]

end Tree

/-- A document as it is read where it has been written. -/
def Document.settled (d : Document) : Document :=
  ⟨d.before.map Tree.settled, d.root.settled, d.after.map Tree.settled⟩

mutual

def Tree.same : Tree → Tree → Bool
  | .leaf kind (.text t), .leaf kind' (.text t') => kind == kind' && t == t'
  | .element name attrs children none, .element name' attrs' children' none =>
    name == name' && attrs == attrs' && Tree.sameAll children children'
  | _, _ => false

def Tree.sameAll : List Tree → List Tree → Bool
  | [], [] => true
  | n :: rest, n' :: rest' => n.same n' && Tree.sameAll rest rest'
  | _, _ => false

end

theorem Tree.eq_of_sameAll {l l' : List Tree} (h : Tree.sameAll l l') : l = l' := by
  induction l using Tree.forest_induction generalizing l' with
  | nil => cases l' <;> simp_all [Tree.sameAll]
  | leaf kind content rest ih =>
    cases l' with
    | nil => simp [Tree.sameAll] at h
    | cons n' rest' =>
      obtain ⟨hn, hrest⟩ := Bool.and_eq_true_iff.1 (by rwa [Tree.sameAll] at h)
      rw [ih hrest]
      unfold Tree.same at hn
      split at hn <;> simp_all
  | element name attrs children value rest ihc ihr =>
    cases l' with
    | nil => simp [Tree.sameAll] at h
    | cons n' rest' =>
      obtain ⟨hn, hrest⟩ := Bool.and_eq_true_iff.1 (by rwa [Tree.sameAll] at h)
      rw [ihr hrest]
      unfold Tree.same at hn
      split at hn <;> simp_all
      exact ihc hn.2

/-- Whether two documents without other values than texts are the same. -/
def Document.same (d d' : Document) : Bool :=
  Tree.sameAll d.before d'.before && Tree.sameAll [d.root] [d'.root] && Tree.sameAll d.after d'.after

/-- The comparison of documents decides their equality. -/
theorem Document.eq_of_same {d d' : Document} (h : d.same d') : d = d' := by
  obtain ⟨h, hafter⟩ := Bool.and_eq_true_iff.1 h
  obtain ⟨hbefore, hroot⟩ := Bool.and_eq_true_iff.1 h
  obtain ⟨before, root, after⟩ := d
  obtain rfl : before = d'.before := Tree.eq_of_sameAll hbefore
  obtain rfl : root = d'.root := List.singleton_inj.1 (Tree.eq_of_sameAll hroot)
  obtain rfl : after = d'.after := Tree.eq_of_sameAll hafter
  rfl

/-- Reading inverts writing on a document. -/
def Document.ComesBack (d : Document) : Prop :=
  ∃ bytes, d.bytes = .ok bytes ∧ Markup.read bytes = .ok d.settled

open Codec Text

/-- What is read from the bytes of a text, without going through them. -/
def scanned? (t : Text) : Option Document := do
  let letters ← t.mapM CodePoint.toChar?
  if letters.head? = some '<' ∧ codecOf? (letters.flatMap String.utf8EncodeChar) = some .utf8 then
    readLetters? letters
  else none

theorem read_utf8OfString {s : String} {d : Document} (hhead : s.toList.head? = some '<')
    (hcodec : codecOf? (s.toList.flatMap String.utf8EncodeChar) = some .utf8)
    (h : readLetters? s.toList = some d) : read (utf8OfString s) = .ok d := by
  rw [← utf8OfString_eq] at hcodec
  have hmark : withoutMark (utf8OfString s) = utf8OfString s := by
    obtain ⟨rest, hrest⟩ := List.head?_eq_some_iff.1 hhead
    rw [utf8OfString_eq, hrest]
    rfl
  have hdecode : utf8.decode? (utf8OfString s) = some (ofString s) :=
    congrArg (Option.map _) (stringOfUtf8?_utf8OfString s)
  simp [read, hmark, hcodec, hdecode, toString?_eq (characters_ofString s), display_ofString, h]

/-- A text that was scanned is read from its bytes. -/
theorem read_of_scanned? {t : Text} {d : Document} (h : scanned? t = some d) :
    ∃ bytes, encodeUtf8? t = some bytes ∧ read bytes = .ok d := by
  obtain ⟨letters, hletters, h⟩ := Option.bind_eq_some_iff.1 h
  obtain ⟨⟨hhead, hcodec⟩, h⟩ := Option.ite_none_right_eq_some.1 h
  rw [← String.toList_ofList (l := letters)] at hhead hcodec h
  refine ⟨_, ?_, read_utf8OfString hhead hcodec h⟩
  rw [encodeUtf8?, toString?, hletters]
  rfl

end AddonBuilder.Markup
