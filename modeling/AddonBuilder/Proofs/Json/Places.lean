import AddonBuilder.Proofs.Json.Acceptance
import Mathlib.Logic.Relation

/-!
# Where a text stops being a document

A document can be read token by token, by the containers that are open and what may come next.
-/

namespace AddonBuilder.Json

open List Option Json.Parser
open Relation (ReflTransGen)

/-- What a document may stand in. -/
inductive Container where
  | array
  | object
deriving DecidableEq, Repr

/-- What may come next.  A separator is a comma or the end of the innermost container, and outside
of all containers the end of the text. -/
inductive Expectation where
  | value
  | name
  | colon
  | separator
deriving DecidableEq, Repr

/-- What each member of a container starts with. -/
def Container.content : Container → Expectation
  | array => .value
  | object => .name

/-- The tokens of a text, without what they say. -/
inductive Token where
  | opening (k : Container)
  | closing (k : Container)
  | colon
  | comma
  | string
  | scalar
deriving DecidableEq, Repr

namespace Token

def unit? : Token → Option CodePoint
  | opening .array => some 0x5B
  | opening .object => some 0x7B
  | closing .array => some 0x5D
  | closing .object => some 0x7D
  | colon => some 0x3A
  | comma => some 0x2C
  | string => some 0x22
  | scalar => none

/-- The tokens of a single unit. -/
def marks : List Token :=
  [opening .array, opening .object, closing .array, closing .object, colon, comma]

/-- The complete token at a cursor, and the place after it. -/
def at? (mode : Mode) (c : Cursor) : Option (Token × Cursor) :=
  match marks.find? fun t => t.unit? = c.rest.head? with
  | some t => some (t, c.advance 1)
  | none =>
    if starts c 0x22 then
      match scanString mode (c.advance 1) with
      | .ok (_, next) => some (string, next)
      | .error _ => none
    else match constant? c.rest with
      | some k => some (scalar, c.advance k.word.length)
      | none => (number? c.rest).map fun p => (scalar, c.advance p.2)

end Token

/-- A place in a text between two tokens. -/
structure Place where
  cursor : Cursor
  /-- The containers that are open, the innermost first. -/
  inside : List Container
  expected : Expectation
  /-- Whether the innermost container has just been opened: it may then be closed at once. -/
  fresh : Bool
deriving DecidableEq, Repr

namespace Place

def start (s : Text) : Place := ⟨(cursorAt s 0).skipBlanks, [], .value, false⟩

/-- What a token does at a place, if it may stand there. -/
def after (q : Place) (next : Cursor) : Token → Option Place
  | .opening k => if q.expected = .value then some ⟨next, k :: q.inside, k.content, true⟩ else none
  | .closing k =>
    if (q.expected = .separator ∨ q.fresh) ∧ q.inside.head? = some k then
      some ⟨next, q.inside.tail, .separator, false⟩
    else none
  | .colon => if q.expected = .colon then some ⟨next, q.inside, .value, false⟩ else none
  | .comma =>
    if q.expected = .separator then q.inside.head?.map fun k => ⟨next, q.inside, k.content, false⟩
    else none
  | .string =>
    if q.expected = .value then some ⟨next, q.inside, .separator, false⟩
    else if q.expected = .name then some ⟨next, q.inside, .colon, false⟩
    else none
  | .scalar => if q.expected = .value then some ⟨next, q.inside, .separator, false⟩ else none

/-- The next place: over one complete token that may stand here, and the white space after it. -/
def step? (mode : Mode) (q : Place) : Option Place :=
  (Token.at? mode q.cursor).bind fun p => q.after p.2.skipBlanks p.1

/-- Some tokens further on. -/
abbrev Reaches (mode : Mode) : Place → Place → Prop :=
  ReflTransGen fun q q' => q.step? mode = some q'

/-- A string has been opened where one may stand. -/
def AtString (q : Place) : Prop :=
  (q.expected = .value ∨ q.expected = .name) ∧ starts q.cursor 0x22 = true

/-- What is reported missing at a place. -/
def missing (q : Place) : Reason :=
  match q.expected with
  | .value => .value
  | .name => .propertyName
  | .colon => .colon
  | .separator => .comma

/-- How far after the place it is reported that something is missing there. -/
def lag (mode : Mode) (q : Place) : Nat :=
  if q.expected = .separator ∧ q.inside.head? = some .array then mode.missedComma else 0

/-- What is reported at a place where the text stops being a document. -/
inductive Faults (mode : Mode) (q : Place) : ParseError → Prop
  | string {e : ParseError} : q.AtString → scanString mode (q.cursor.advance 1) = .error e →
      Faults mode q e
  | missing : ¬ q.AtString → q.inside ≠ [] →
      Faults mode q (.wrong q.missing (q.cursor.pos + q.lag mode))
  | noDocument : ¬ q.AtString → q.inside = [] → q.expected = .value → Faults mode q .noDocument
  | extraData : q.inside = [] → q.expected = .separator → q.cursor.rest ≠ [] →
      Faults mode q (.extraData q.cursor.pos (q.cursor.pos + q.cursor.rest.length))

end Place

/-! ## Tokens -/

theorem not_blank_skipBlanks (c : Cursor) :
    ∀ u ∈ c.skipBlanks.rest.head?, Text.isAsciiBlank u.val = false := by
  intro u hu
  let blank : CodePoint → Bool := fun u => Text.isAsciiBlank u.val
  have hrest : c.skipBlanks.rest = c.rest.dropWhile blank := by
    calc c.rest.drop (c.rest.takeWhile blank).length
        = (c.rest.takeWhile blank ++ c.rest.dropWhile blank).drop
            (c.rest.takeWhile blank).length := by rw [takeWhile_append_dropWhile]
      _ = c.rest.dropWhile blank := drop_left
  have hhead := head?_dropWhile_not blank c.rest
  rw [← hrest, mem_def.1 hu] at hhead
  exact hhead

namespace Token

variable {mode : Mode} {c c' : Cursor} {t : Token}

theorem at?_mark {u : CodePoint} (ht : t ∈ marks) (hu : t.unit? = some u)
    (h : starts c u) : at? mode c = some (t, c.advance 1) := by
  have hfind : (marks.find? fun t => t.unit? = c.rest.head?) = some t := by
    rw [head?_of_starts h, ← hu]
    simp only [marks, mem_cons, not_mem_nil, or_false] at ht
    rcases ht with rfl | rfl | rfl | rfl | rfl | rfl <;> rfl
  rw [at?, hfind]

theorem at?_string (h : starts c 0x22) :
    at? mode c = ((scanString mode (c.advance 1)).toOption).map fun p => (string, p.2) := by
  have hfind : (marks.find? fun t => t.unit? = c.rest.head?) = none := by
    rw [head?_of_starts h]
    rfl
  rw [at?, hfind]
  dsimp only
  rw [if_pos h]
  cases scanString mode (c.advance 1) with
  | error e => rfl
  | ok p => rfl

theorem at?_constant {k : Constant} (h : constant? c.rest = some k) :
    at? mode c = some (scalar, c.advance k.word.length) := by
  obtain ⟨rest, hrest⟩ := constant?_split h
  have hfind : (marks.find? fun t => t.unit? = c.rest.head?) = none := by
    rw [hrest]
    cases k <;> rfl
  have hquote : starts c 0x22 = false := by
    unfold starts
    rw [hrest]
    cases k <;> rfl
  rw [at?, hfind, hquote, h]
  rfl

theorem at?_number {d : Document} {n : Nat} (hconstant : constant? c.rest = none)
    (h : number? c.rest = some (d, n)) : at? mode c = some (scalar, c.advance n) := by
  obtain ⟨i, f, e, rest, hrest, -, hi, -⟩ := number?_split h
  obtain ⟨u, tail, rfl, hu⟩ := integer_head hi
  have hhead : c.rest.head? = some u := by
    rw [hrest]
    rfl
  have hother : ∀ v ∈ [(0x5B : CodePoint), 0x7B, 0x5D, 0x7D, 0x3A, 0x2C, 0x22], v ≠ u := by
    rintro v hv rfl
    simp only [mem_cons, not_mem_nil, or_false] at hv
    obtain hdigit | ⟨rfl, -⟩ := hu
    · rcases hv with rfl | rfl | rfl | rfl | rfl | rfl | rfl <;> exact absurd hdigit (by decide)
    · revert hv
      decide
  have hfind : (marks.find? fun t => t.unit? = c.rest.head?) = none := by
    rw [hhead]
    simp [marks, unit?, hother]
  have hquote : starts c 0x22 = false := by
    unfold starts
    rw [hhead]
    simpa [eq_comm] using hother 0x22 (by simp)
  rw [at?, hfind, hquote, hconstant, h]
  rfl

theorem at?_cases (h : at? mode c = some (t, c')) :
    (∃ u, t.unit? = some u ∧ starts c u ∧ c' = c.advance 1) ∨
    (t = string ∧ starts c 0x22 ∧ ∃ x, scanString mode (c.advance 1) = .ok (x, c')) ∨
    (t = scalar ∧ ((∃ k, constant? c.rest = some k ∧ c' = c.advance k.word.length) ∨
      ∃ d n, number? c.rest = some (d, n) ∧ c' = c.advance n)) := by
  unfold at? at h
  split at h
  · rename_i t' hfind
    obtain ⟨rfl, rfl⟩ := Prod.mk.inj (some.inj h)
    have hhead : t'.unit? = c.rest.head? := by simpa using find?_some hfind
    have hmark := mem_of_find?_eq_some hfind
    obtain ⟨u, hu⟩ : ∃ u, t'.unit? = some u := by
      simp only [marks, mem_cons, not_mem_nil, or_false] at hmark
      rcases hmark with rfl | rfl | rfl | rfl | rfl | rfl <;> exact ⟨_, rfl⟩
    exact .inl ⟨u, hu, by simp [starts, ← hhead, hu], rfl⟩
  split at h
  · grind
  split at h
  · grind
  · obtain ⟨p, hnumber, hp⟩ := map_eq_some_iff.1 h
    grind

theorem starts_of_at? {u : CodePoint} (h : at? mode c = some (t, c')) (hu : t.unit? = some u) :
    starts c u := by
  obtain ⟨v, hv, hstarts, -⟩ | ⟨rfl, hquote, -⟩ | ⟨rfl, -⟩ := at?_cases h
  · rwa [← some.inj (hv.symm.trans hu)]
  · rwa [← some.inj hu]
  · cases hu

theorem passes_at? (h : at? mode c = some (t, c')) : ∃ x, x ≠ [] ∧ Passes c x c' := by
  obtain ⟨u, -, hstarts, rfl⟩ | ⟨-, hquote, x, hscan⟩ | ⟨-, ⟨k, hk, rfl⟩ | ⟨d, n, hn, rfl⟩⟩ :=
    at?_cases h
  · exact ⟨_, by simp, passes_starts hstarts⟩
  · obtain ⟨body, hpasses, -⟩ := passes_scanString hscan
    exact ⟨_, by simp, (passes_starts hquote).trans hpasses⟩
  · obtain ⟨rest, hrest⟩ := constant?_split hk
    have hword : k.word ≠ [] := by cases k <;> simp [Constant.word, Text.ofString]
    exact ⟨k.word, hword, by simp [Cursor.advance, hrest], rfl⟩
  · obtain ⟨i, f, e, rest, hrest, rfl, hi, -⟩ := number?_split hn
    obtain ⟨u, tail, rfl, -⟩ := integer_head hi
    exact ⟨_, by simp, by simp [Cursor.advance, hrest], rfl⟩

end Token

/-! ## Steps -/

namespace Place

variable {mode : Mode} {q q' : Place}

variable {t : Token} {c next : Cursor} {u : CodePoint}

theorem step?_of_at? (h : Token.at? mode q.cursor = some (t, c)) :
    q.step? mode = q.after c.skipBlanks t := by
  rw [step?, h]
  rfl

theorem step?_eq_some_iff : q.step? mode = some q' ↔
    ∃ t c, Token.at? mode q.cursor = some (t, c) ∧ q.after c.skipBlanks t = some q' := by
  unfold step?
  rw [bind_eq_some_iff]
  grind

theorem cursor_after (h : q.after next t = some q') : q'.cursor = next := by
  cases t <;> grind [after, map_eq_some_iff]

/-- **A step goes over a token and the white space after it.** -/
theorem passes_step? (h : q.step? mode = some q') :
    ∃ t w, t ≠ [] ∧ Blanks w ∧ Passes q.cursor (t ++ w) q'.cursor ∧
      ∀ u ∈ q'.cursor.rest.head?, Text.isAsciiBlank u.val = false := by
  obtain ⟨token, c, htoken, hafter⟩ := step?_eq_some_iff.1 h
  obtain ⟨t, hne, hpasses⟩ := Token.passes_at? htoken
  obtain ⟨w, hw, hskip⟩ := passes_skipBlanks c
  rw [cursor_after hafter]
  exact ⟨t, w, hne, hw, hpasses.trans hskip, not_blank_skipBlanks c⟩

theorem length_step? (h : q.step? mode = some q') :
    q'.cursor.rest.length < q.cursor.rest.length := by
  obtain ⟨t, w, hne, -, ⟨hrest, -⟩, -⟩ := passes_step? h
  have hpos := length_pos_iff.2 hne
  rw [hrest, length_append, length_append]
  omega

/-- The parser only goes forward. -/
theorem Reaches.length_le (h : Reaches mode q q') :
    q'.cursor.rest.length ≤ q.cursor.rest.length := by
  induction h with
  | refl => exact Nat.le_refl _
  | tail _ hstep ih => exact Nat.le_trans (Nat.le_of_lt (length_step? hstep)) ih

theorem step?_opening (k : Container) (he : q.expected = .value)
    (hu : (Token.opening k).unit? = some u) (h : starts q.cursor u) :
    q.step? mode = some ⟨(q.cursor.advance 1).skipBlanks, k :: q.inside, k.content, true⟩ := by
  have hmark : Token.opening k ∈ Token.marks := by cases k <;> simp [Token.marks]
  rw [step?_of_at? (Token.at?_mark hmark hu h), after, if_pos he]

variable {k : Container} {inside : List Container}

theorem step?_closing (hq : q.expected = .separator ∨ q.fresh) (hinside : q.inside = k :: inside)
    (hu : (Token.closing k).unit? = some u) (h : starts q.cursor u) :
    q.step? mode = some ⟨(q.cursor.advance 1).skipBlanks, inside, .separator, false⟩ := by
  have hmark : Token.closing k ∈ Token.marks := by cases k <;> simp [Token.marks]
  rw [step?_of_at? (Token.at?_mark hmark hu h), after, if_pos ⟨hq, by rw [hinside]; rfl⟩, hinside]
  rfl

theorem step?_comma (he : q.expected = .separator)
    (hinside : q.inside = k :: inside) (h : starts q.cursor 0x2C) :
    q.step? mode = some ⟨(q.cursor.advance 1).skipBlanks, k :: inside, k.content, false⟩ := by
  have hmark : Token.comma ∈ Token.marks := by simp [Token.marks]
  rw [step?_of_at? (Token.at?_mark hmark rfl h), after, if_pos he, hinside]
  rfl

theorem step?_colon (he : q.expected = .colon) (h : starts q.cursor 0x3A) :
    q.step? mode = some ⟨(q.cursor.advance 1).skipBlanks, q.inside, .value, false⟩ := by
  have hmark : Token.colon ∈ Token.marks := by simp [Token.marks]
  rw [step?_of_at? (Token.at?_mark hmark rfl h), after, if_pos he]

theorem step?_string {x : Text} (h : starts q.cursor 0x22)
    (hscan : scanString mode (q.cursor.advance 1) = .ok (x, c)) :
    q.step? mode = q.after c.skipBlanks .string := by
  refine step?_of_at? ?_
  rw [Token.at?_string h, hscan]
  rfl

theorem step?_string_error {e : ParseError} (h : starts q.cursor 0x22)
    (hscan : scanString mode (q.cursor.advance 1) = .error e) : q.step? mode = none := by
  rw [step?, Token.at?_string h, hscan]
  rfl

/-- The innermost container is not closed here. -/
def StaysOpen (q : Place) : Prop :=
  ∀ k u, (q.expected = .separator ∨ q.fresh) → q.inside.head? = some k →
    (Token.closing k).unit? = some u → starts q.cursor u = false

theorem StaysOpen.of_not_starts {outer : List Container}
    (hinside : q.inside = k :: outer) (hu : (Token.closing k).unit? = some u)
    (h : ¬ starts q.cursor u) : q.StaysOpen := by
  intro k' v _ hhead hv
  grind

theorem StaysOpen.of_begun (he : q.expected ≠ .separator) (hfresh : q.fresh = false) :
    q.StaysOpen := by
  intro k u hq
  simp [he, hfresh] at hq

theorem step?_eq_none (h : ∀ t c, Token.at? mode q.cursor = some (t, c) →
    q.after c.skipBlanks t = none) : q.step? mode = none := by
  cases hstep : q.step? mode with
  | none => rfl
  | some q' =>
    obtain ⟨t, c, htoken, hafter⟩ := step?_eq_some_iff.1 hstep
    rw [h t c htoken] at hafter
    cases hafter

theorem StaysOpen.after_closing (hopen : q.StaysOpen)
    (h : Token.at? mode q.cursor = some (.closing k, c)) : q.after next (.closing k) = none := by
  rw [after, if_neg]
  rintro ⟨hq, hinside⟩
  obtain ⟨u, hu⟩ : ∃ u, (Token.closing k).unit? = some u := by cases k <;> exact ⟨_, rfl⟩
  have hstarts := Token.starts_of_at? h hu
  rw [hopen k u hq hinside hu] at hstarts
  cases hstarts

theorem step?_none_value (he : q.expected = .value) (hopen : q.StaysOpen)
    (hbrace : starts q.cursor 0x7B = false) (hbracket : starts q.cursor 0x5B = false)
    (hquote : starts q.cursor 0x22 = false) (hconstant : constant? q.cursor.rest = none)
    (hnumber : number? q.cursor.rest = none) : q.step? mode = none := by
  refine step?_eq_none fun t c h => ?_
  cases t with
  | opening k =>
    cases k with
    | array => exact absurd (Token.starts_of_at? h rfl) (by simp [hbracket])
    | object => exact absurd (Token.starts_of_at? h rfl) (by simp [hbrace])
  | closing k => exact hopen.after_closing h
  | colon => simp [after, he]
  | comma => simp [after, he]
  | string => exact absurd (Token.starts_of_at? h rfl) (by simp [hquote])
  | scalar =>
    obtain ⟨u, hu, -⟩ | ⟨hstring, -⟩ | ⟨-, ⟨k, hk, -⟩ | ⟨d, n, hn, -⟩⟩ := Token.at?_cases h
    · cases hu
    · cases hstring
    · rw [hconstant] at hk
      cases hk
    · rw [hnumber] at hn
      cases hn

theorem step?_none_name (he : q.expected = .name) (hopen : q.StaysOpen)
    (hquote : starts q.cursor 0x22 = false) : q.step? mode = none := by
  refine step?_eq_none fun t c h => ?_
  cases t with
  | closing k => exact hopen.after_closing h
  | string => exact absurd (Token.starts_of_at? h rfl) (by simp [hquote])
  | opening _ | colon | comma | scalar => simp [after, he]

theorem step?_none_colon (he : q.expected = .colon) (hopen : q.StaysOpen)
    (hcolon : starts q.cursor 0x3A = false) : q.step? mode = none := by
  refine step?_eq_none fun t c h => ?_
  cases t with
  | closing k => exact hopen.after_closing h
  | colon => exact absurd (Token.starts_of_at? h rfl) (by simp [hcolon])
  | opening _ | string | comma | scalar => simp [after, he]

theorem step?_none_separator (he : q.expected = .separator) (hopen : q.StaysOpen)
    (hcomma : starts q.cursor 0x2C = false ∨ q.inside = []) : q.step? mode = none := by
  refine step?_eq_none fun t c h => ?_
  cases t with
  | closing k => exact hopen.after_closing h
  | comma =>
    obtain hcomma | hinside := hcomma
    · exact absurd (Token.starts_of_at? h rfl) (by simp [hcomma])
    · simp [after, he, hinside]
  | opening _ | string | colon | scalar => simp [after, he]

/-! ## The place where a text stops being a document -/

variable {s : Text}

/-- The text stops being a document here: complete tokens lead to the place, and none that may stand
here does. -/
def StopsAt (mode : Mode) (s : Text) (q : Place) : Prop :=
  Reaches mode (start s) q ∧ q.step? mode = none

theorem passes_of_reaches (h : Reaches mode (start s) q) :
    (∃ t, Passes ⟨0, s⟩ t q.cursor) ∧
      ∀ u ∈ q.cursor.rest.head?, Text.isAsciiBlank u.val = false := by
  induction h with
  | refl =>
    obtain ⟨w, -, hskip⟩ := passes_skipBlanks (cursorAt s 0)
    refine ⟨⟨w, ?_⟩, not_blank_skipBlanks _⟩
    rw [cursorAt_zero] at hskip
    rwa [start, cursorAt_zero]
  | tail _ hstep ih =>
    obtain ⟨⟨before, hbefore⟩, -⟩ := ih
    obtain ⟨t, w, -, -, hpasses, hhead⟩ := passes_step? hstep
    exact ⟨⟨_, hbefore.trans hpasses⟩, hhead⟩

theorem StopsAt.unique (h : StopsAt mode s q) (h' : StopsAt mode s q') : q = q' := by
  have hunique : Relator.RightUnique fun q q' : Place => q.step? mode = some q' := by
    intro a b c hb hc
    exact some.inj (hb.symm.trans hc)
  have hend : ∀ {a b : Place}, a.step? mode = none → Reaches mode a b → a = b := by
    grind
  obtain hreaches | hreaches := ReflTransGen.total_of_right_unique hunique h.1 h'.1
  · exact hend h.2 hreaches
  · exact (hend h'.2 hreaches).symm

/-- The place is inside the text, and no white space stands at it. -/
theorem StopsAt.in_text (h : StopsAt mode s q) :
    q.cursor.pos ≤ s.length ∧ q.cursor.rest = s.drop q.cursor.pos ∧
      ∀ u ∈ q.cursor.rest.head?, Text.isAsciiBlank u.val = false := by
  obtain ⟨⟨t, hrest, hposition⟩, hhead⟩ := passes_of_reaches h.1
  grind

end Place

end AddonBuilder.Json
