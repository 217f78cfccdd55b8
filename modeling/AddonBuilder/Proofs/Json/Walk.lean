import AddonBuilder.Proofs.Json.Places

/-!
# The parser follows the tokens

The recursive parser agrees with the walk from place to place.
-/

namespace AddonBuilder.Json

open Relation (ReflTransGen)

namespace Place

variable {mode : Mode} {q q' : Place}

/-- Going on from a place, the text stops being a document inside a string or a container, and this
is reported. -/
def Blames (mode : Mode) (q : Place) (e : ParseError) : Prop :=
  ∃ q', Reaches mode q q' ∧ q'.step? mode = none ∧ q'.Faults mode e ∧ (q'.AtString ∨ q'.inside ≠ [])

theorem Blames.of_reaches {e : ParseError} (hreaches : Reaches mode q q') (h : q'.Blames mode e) :
    q.Blames mode e := by
  obtain ⟨q'', hreaches', hstuck⟩ := h
  exact ⟨q'', hreaches.trans hreaches', hstuck⟩

/-- A computation at a place gives what it should, or fails for what is wrong from there on. -/
def Runs (mode : Mode) (q : Place) {α : Type} (post : α → Prop) : Except ParseError α → Prop
  | .ok a => post a
  | .error e => q.Blames mode e

theorem Runs.bind {α β : Type} {post : α → Prop} {post' : β → Prop} {x : Except ParseError α}
    {f : α → Except ParseError β} (h : q.Runs mode post x)
    (hf : ∀ a, post a → q.Runs mode post' (f a)) : q.Runs mode post' (x >>= f) := by
  cases x with
  | error e => exact h
  | ok a => exact hf a h

theorem Runs.of_reaches {α : Type} {post : α → Prop} {x : Except ParseError α}
    (hreaches : Reaches mode q q') (h : q'.Runs mode post x) : q.Runs mode post x := by
  cases x with
  | error e => exact Blames.of_reaches hreaches h
  | ok a => exact h

/-- A place from which there is no step is to blame for what is missing there. -/
theorem blames_missing {reason : Reason} {n : Nat} (hstuck : q.step? mode = none)
    (hstring : ¬ q.AtString) (hinside : q.inside ≠ []) (hreason : q.missing = reason)
    (hlag : q.lag mode = n) : q.Blames mode (.wrong reason (q.cursor.pos + n)) := by
  subst hreason hlag
  exact ⟨q, .refl, hstuck, .missing hstring hinside, .inr hinside⟩

theorem blames_string {e : ParseError} (hstring : q.AtString)
    (hscan : scanString mode (q.cursor.advance 1) = .error e) : q.Blames mode e :=
  ⟨q, .refl, step?_string_error hstring.2 hscan, .string hstring hscan, .inl hstring⟩

theorem Blames.exists_wrong {e : ParseError} (hmode : mode.alphabet = .characters)
    (h : q.Blames mode e) : ∃ reason place, e = .wrong reason place := by
  obtain ⟨q', -, -, hfaults, hinside⟩ := h
  cases hfaults with
  | string _ hscan => exact (inString_of_scanFrom hscan).exists_wrong hmode
  | missing => exact ⟨_, _, rfl⟩
  | noDocument hstring hnil => simp [hstring, hnil] at hinside
  | extraData hnil he => simp [AtString, hnil, he] at hinside

/-- After a member of a container the container is closed, or a comma follows and then the rest. -/
theorem Runs.separator {k : Container} {outer : List Container} {u : CodePoint} {α : Type}
    {post : α → Prop} {done rest : Except ParseError α} (he : q.expected = .separator)
    (hinside : q.inside = k :: outer) (hu : (Token.closing k).unit? = some u)
    (hdone : q.step? mode = some ⟨(q.cursor.advance 1).skipBlanks, outer, .separator, false⟩ →
      q.Runs mode post done)
    (hrest : q.step? mode = some ⟨(q.cursor.advance 1).skipBlanks, k :: outer, k.content, false⟩ →
      q.Runs mode post rest) :
    q.Runs mode post
      (if Parser.starts q.cursor u then done
        else if !Parser.starts q.cursor 0x2C then
          .error (.wrong .comma (q.cursor.pos + q.lag mode))
        else rest) := by
  split
  · rename_i hclose
    exact hdone (step?_closing (.inl he) hinside hu hclose)
  rename_i hclose
  split
  · rename_i hcomma
    have hopen : q.StaysOpen := .of_not_starts hinside hu hclose
    have hstuck : q.step? mode = none :=
      step?_none_separator he hopen (.inl (by simpa using hcomma))
    exact blames_missing hstuck (by simp [AtString, he]) (by simp [hinside]) (by simp [missing, he])
      rfl
  · rename_i hcomma
    exact hrest (step?_comma he hinside (by simpa using hcomma))

def Closed (mode : Mode) (q : Place) (outer : List Container) {α : Type} (found : α × Cursor) :
    Prop :=
  Reaches mode q ⟨found.2.skipBlanks, outer, .separator, false⟩

def Found (mode : Mode) (q : Place) : Option (Document × Cursor) → Prop
  | none => q.step? mode = none ∧ Parser.starts q.cursor 0x22 = false
  | some found => Closed mode q q.inside found

end Place

/-- The parser finds what the walk passes, and fails where the walk is stuck, given fuel for the
units that are left. -/
structure Traced (mode : Mode) (fuel : Nat) : Prop where
  value : ∀ q : Place, q.expected = .value → q.StaysOpen → 2 * q.cursor.rest.length + 1 ≤ fuel →
    q.Runs mode (q.Found mode) (Parser.value mode fuel q.cursor)
  items : ∀ (q : Place) (outer : List Container), q.inside = .array :: outer → q.expected = .value →
    q.StaysOpen → 2 * q.cursor.rest.length + 2 ≤ fuel →
    q.Runs mode (q.Closed mode outer) (Parser.items mode fuel q.cursor)
  members : ∀ (q : Place) (outer : List Container), q.inside = .object :: outer →
    q.expected = .name → Parser.starts q.cursor 0x22 = true → 2 * q.cursor.rest.length + 2 ≤ fuel →
    q.Runs mode (q.Closed mode outer) (Parser.members mode fuel (q.cursor.advance 1))

namespace Traced

open Place

variable {mode : Mode} {fuel : Nat}

theorem value_succ (ih : Traced mode fuel) (q : Place) (he : q.expected = .value)
    (hopen : q.StaysOpen) (hfuel : 2 * q.cursor.rest.length + 1 ≤ fuel + 1) :
    q.Runs mode (q.Found mode) (Parser.value mode (fuel + 1) q.cursor) := by
  rw [Parser.value]
  dsimp only
  split
  · -- An object: the walk steps inside, where a name or the closing brace may stand.
    rename_i hbrace
    let q₁ : Place := ⟨(q.cursor.advance 1).skipBlanks, .object :: q.inside, .name, true⟩
    have hstep : q.step? mode = some q₁ := step?_opening .object he rfl hbrace
    have hlen : q₁.cursor.rest.length < q.cursor.rest.length := length_step? hstep
    split
    · rename_i hclose
      have hclosed : q₁.step? mode = _ := step?_closing (.inr rfl) rfl rfl hclose
      exact ReflTransGen.head hstep (.single hclosed)
    rename_i hclose
    split
    · rename_i hquote
      have hmembers := ih.members q₁ q.inside rfl rfl hquote (by omega)
      exact (hmembers.of_reaches (.single hstep)).bind fun found hfound =>
        ReflTransGen.head hstep hfound
    · rename_i hquote
      have hopen₁ : q₁.StaysOpen := .of_not_starts rfl rfl hclose
      have hstuck : q₁.step? mode = none := step?_none_name rfl hopen₁ (by simpa using hquote)
      exact Blames.of_reaches (.single hstep)
        (blames_missing hstuck (fun h => hquote h.2) (by simp [q₁]) rfl rfl)
  split
  · rename_i hbracket
    let q₁ : Place := ⟨(q.cursor.advance 1).skipBlanks, .array :: q.inside, .value, true⟩
    have hstep : q.step? mode = some q₁ := step?_opening .array he rfl hbracket
    have hlen : q₁.cursor.rest.length < q.cursor.rest.length := length_step? hstep
    split
    · rename_i hclose
      have hclosed : q₁.step? mode = _ := step?_closing (.inr rfl) rfl rfl hclose
      exact ReflTransGen.head hstep (.single hclosed)
    · rename_i hclose
      have hopen₁ : q₁.StaysOpen := .of_not_starts rfl rfl hclose
      have hitems := ih.items q₁ q.inside rfl rfl hopen₁ (by omega)
      exact (hitems.of_reaches (.single hstep)).bind fun found hfound =>
        ReflTransGen.head hstep hfound
  rename_i hbrace hbracket
  split
  · rename_i hquote
    cases hscan : scanString mode (q.cursor.advance 1) with
    | error e =>
      exact blames_string ⟨.inl he, hquote⟩ hscan
    | ok found =>
      have hstep := step?_string hquote hscan
      rw [after, if_pos he] at hstep
      exact ReflTransGen.single hstep
  rename_i hquote
  split
  · rename_i k hk
    have htoken : Token.at? mode q.cursor = _ := Token.at?_constant hk
    have hstep := step?_of_at? htoken
    rw [after, if_pos he] at hstep
    exact ReflTransGen.single hstep
  rename_i hconstant
  split
  · rename_i d n hn
    have htoken : Token.at? mode q.cursor = _ := Token.at?_number hconstant hn
    have hstep := step?_of_at? htoken
    rw [after, if_pos he] at hstep
    exact ReflTransGen.single hstep
  · rename_i hnumber
    exact ⟨step?_none_value he hopen (by simpa using hbrace) (by simpa using hbracket)
      (by simpa using hquote) hconstant hnumber, by simpa using hquote⟩

theorem blames_value {q : Place} (he : q.expected = .value) (hinside : q.inside ≠ [])
    (h : q.Found mode none) : q.Blames mode (.wrong .value q.cursor.pos) := by
  obtain ⟨hstuck, hquote⟩ := h
  have hstring : ¬ q.AtString := fun h => by simp [AtString, hquote] at h
  exact blames_missing (n := 0) hstuck hstring hinside (by simp [missing, he]) (by simp [lag, he])

theorem items_succ (ih : Traced mode fuel) (q : Place) (outer : List Container)
    (hinside : q.inside = .array :: outer) (he : q.expected = .value) (hopen : q.StaysOpen)
    (hfuel : 2 * q.cursor.rest.length + 2 ≤ fuel + 1) :
    q.Runs mode (q.Closed mode outer) (Parser.items mode (fuel + 1) q.cursor) := by
  rw [Parser.items]
  refine (ih.value q he hopen (by omega)).bind fun found hfound => ?_
  cases found with
  | none => exact blames_value he (by simp [hinside]) hfound
  | some found =>
    obtain ⟨d, c⟩ := found
    let q₁ : Place := ⟨c.skipBlanks, .array :: outer, .separator, false⟩
    have hreaches : Reaches mode q q₁ := by
      rw [Found, Closed, hinside] at hfound
      exact hfound
    refine Runs.of_reaches hreaches (Runs.separator (q := q₁) rfl rfl rfl ?_ ?_)
    · intro hclosed
      exact hreaches.tail hclosed
    · intro hstep
      let q₂ : Place := ⟨(c.skipBlanks.advance 1).skipBlanks, .array :: outer, .value, false⟩
      have hlen : q₁.cursor.rest.length ≤ q.cursor.rest.length := hreaches.length_le
      have hlen₂ : q₂.cursor.rest.length < q₁.cursor.rest.length := length_step? hstep
      have hitems := ih.items q₂ outer rfl rfl (.of_begun (by simp [q₂]) rfl) (by omega)
      exact (hitems.of_reaches (.single hstep)).bind fun found hfound =>
        (hreaches.tail hstep).trans hfound

theorem members_succ (ih : Traced mode fuel) (q : Place) (outer : List Container)
    (hinside : q.inside = .object :: outer) (he : q.expected = .name)
    (hquote : Parser.starts q.cursor 0x22) (hfuel : 2 * q.cursor.rest.length + 2 ≤ fuel + 1) :
    q.Runs mode (q.Closed mode outer) (Parser.members mode (fuel + 1) (q.cursor.advance 1)) := by
  rw [Parser.members]
  cases hscan : scanString mode (q.cursor.advance 1) with
  | error e =>
    exact blames_string ⟨.inr he, hquote⟩ hscan
  | ok key =>
    obtain ⟨key, c⟩ := key
    let q₁ : Place := ⟨c.skipBlanks, .object :: outer, .colon, false⟩
    have hname : q.step? mode = some q₁ := by
      rw [step?_string hquote hscan, after, hinside, he]
      rfl
    refine Runs.of_reaches (.single hname) ?_
    simp only [ok_bind]
    split
    · rename_i hcolon
      have hstuck : q₁.step? mode = none :=
        step?_none_colon rfl (.of_begun (by simp [q₁]) rfl) (by simpa using hcolon)
      exact blames_missing hstuck (fun h => by simp [AtString, q₁] at h) (by simp [q₁]) rfl rfl
    rename_i hcolon
    let q₂ : Place := ⟨(c.skipBlanks.advance 1).skipBlanks, .object :: outer, .value, false⟩
    have hvalue : q₁.step? mode = some q₂ := step?_colon rfl (by simpa using hcolon)
    have hlen₁ : q₁.cursor.rest.length < q.cursor.rest.length := length_step? hname
    have hlen₂ : q₂.cursor.rest.length < q₁.cursor.rest.length := length_step? hvalue
    refine Runs.of_reaches (.single hvalue) ?_
    refine (ih.value q₂ rfl (.of_begun (by simp [q₂]) rfl) (by omega)).bind fun found hfound => ?_
    cases found with
    | none => exact blames_value rfl (by simp [q₂]) hfound
    | some found =>
      obtain ⟨d, c'⟩ := found
      let q₃ : Place := ⟨c'.skipBlanks, .object :: outer, .separator, false⟩
      have hreaches₃ : Reaches mode q₂ q₃ := hfound
      have hreaches : Reaches mode q q₃ := .head hname (.head hvalue hreaches₃)
      refine Runs.of_reaches hreaches₃ (Runs.separator (q := q₃) rfl rfl rfl ?_ ?_)
      · intro hclosed
        exact hreaches.tail hclosed
      intro hstep
      let q₄ : Place := ⟨(c'.skipBlanks.advance 1).skipBlanks, .object :: outer, .name, false⟩
      refine Runs.of_reaches (.single hstep) ?_
      split
      · rename_i hquote'
        have hstuck : q₄.step? mode = none :=
          step?_none_name rfl (.of_begun (by simp [q₄]) rfl) (by simpa using hquote')
        exact blames_missing hstuck (fun h => by simp [h.2, q₄] at hquote') (by simp [q₄]) rfl rfl
      · rename_i hquote'
        have hlen₃ : q₃.cursor.rest.length ≤ q₂.cursor.rest.length := hreaches₃.length_le
        have hlen₄ : q₄.cursor.rest.length < q₃.cursor.rest.length := length_step? hstep
        have hmembers := ih.members q₄ outer rfl rfl (by simpa using hquote') (by omega)
        exact hmembers.bind fun found hfound => (hreaches.tail hstep).trans hfound

end Traced

/-- **The parser walks from place to place.** -/
theorem traced (mode : Mode) (fuel : Nat) : Traced mode fuel := by
  induction fuel with
  | zero =>
    constructor
    · intro q _ _ hfuel
      omega
    · intro q outer _ _ _ hfuel
      omega
    · intro q outer _ _ _ hfuel
      omega
  | succ fuel ih => exact ⟨ih.value_succ, ih.items_succ, ih.members_succ⟩

/-! ## Whole texts -/

theorem runs_valueAt (mode : Mode) (c : Cursor) :
    let q : Place := ⟨c, [], .value, false⟩
    q.Runs mode (q.Found mode) (Parser.valueAt mode c) := by
  intro q
  have hopen : q.StaysOpen := .of_begun (by simp [q]) rfl
  exact (traced mode _).value q rfl hopen (Nat.le_refl _)

open Place in
/-- **Every text stops being a document at one place**, behind its end if it is a document, and else
where the error is at fault. -/
theorem parseSource_walk (mode : Mode) (s : Text) :
    ∃ q, StopsAt mode s q ∧
      ((∃ d, parseSource mode s = .ok d) ∧ q.inside = [] ∧ q.expected = .separator ∧
          q.cursor.rest = [] ∨
        ∃ e, parseSource mode s = .error e ∧ q.Faults mode e) := by
  let q₀ := start s
  have hrefl : Reaches mode q₀ q₀ := .refl
  obtain ⟨⟨before, hbefore⟩, -⟩ := passes_of_reaches hrefl
  have hstart : cursorAt s q₀.cursor.pos = q₀.cursor := cursorAt_of_passes hbefore
  have hvalue : q₀.Runs mode (q₀.Found mode) (Parser.valueAt mode (cursorAt s q₀.cursor.pos)) := by
    rw [hstart]
    exact runs_valueAt mode q₀.cursor
  cases hparse : parseAt mode s q₀.cursor.pos with
  | error e =>
    have hsource : parseSource mode s = .error e := bind_eq_error_iff.2 (.inl hparse)
    obtain herror | ⟨hnone, rfl⟩ := parseAt_eq_error_iff.1 hparse
    · rw [herror] at hvalue
      obtain ⟨q, hreaches, hstuck, hfaults, -⟩ := hvalue
      exact ⟨q, ⟨hreaches, hstuck⟩, .inr ⟨e, hsource, hfaults⟩⟩
    · rw [hnone] at hvalue
      have hstring : ¬ q₀.AtString := fun h => by simp [AtString, hvalue.2] at h
      exact ⟨q₀, ⟨hrefl, hvalue.1⟩, .inr ⟨_, hsource, .noDocument hstring rfl rfl⟩⟩
  | ok found =>
    obtain ⟨d, stop⟩ := found
    obtain ⟨c, hfound, rfl⟩ := parseAt_eq_ok_iff.1 hparse
    rw [hfound] at hvalue
    let q : Place := ⟨c.skipBlanks, [], .separator, false⟩
    have hreaches : Reaches mode q₀ q := hvalue
    have hopen : q.StaysOpen := fun k u _ hhead => by simp [q] at hhead
    have hstuck : q.step? mode = none := step?_none_separator rfl hopen (.inr rfl)
    have hcursor : cursorAt s c.pos = c := by
      obtain ⟨t, hpasses, -⟩ := (Parser.sound mode Value.reading _).value hfound
      rw [hstart] at hpasses
      exact cursorAt_of_passes (hbefore.trans hpasses)
    have hlen : s.length = q.cursor.pos + q.cursor.rest.length := by
      obtain ⟨⟨t, hrest, hposition⟩, -⟩ := passes_of_reaches hreaches
      simpa [hposition] using congrArg List.length hrest
    have hsource : parseSource mode s =
        if q.cursor.pos = s.length then .ok d
        else .error (.extraData q.cursor.pos s.length) :=
      parseSource_of_parseAt (by rwa [← cursorAt_zero]) hcursor
    refine ⟨q, ⟨hreaches, hstuck⟩, ?_⟩
    by_cases hempty : q.cursor.rest = []
    · grind
    · have hpos := List.length_pos_iff.2 hempty
      rw [if_neg (by omega), hlen] at hsource
      exact .inr ⟨_, hsource, .extraData rfl rfl hempty⟩

namespace Place

variable {mode : Mode} {s : Text} {q : Place} {reason : Reason} {p : Int}

/-- What is reported outside of strings is missing at the place, inside a container. -/
theorem Faults.missing_of_wrong (h : q.Faults mode (.wrong reason p))
    (hreason : ¬ reason.InString) :
    ¬ q.AtString ∧ q.inside ≠ [] ∧ q.missing = reason ∧ p = q.cursor.pos + q.lag mode := by
  cases h with
  | string _ hscan => exact absurd (inString_of_scanFrom hscan) hreason
  | missing hstring hinside => exact ⟨hstring, hinside, rfl, rfl⟩

/-- **An error outside of strings says what is missing where the text stops being a document.** -/
theorem parseSource_missing_iff (hreason : ¬ reason.InString) :
    parseSource mode s = .error (.wrong reason p) ↔
      ∃ q, StopsAt mode s q ∧ ¬ q.AtString ∧ q.inside ≠ [] ∧ q.missing = reason ∧
        p = q.cursor.pos + q.lag mode := by
  obtain ⟨q, hstops, hwalk⟩ := parseSource_walk mode s
  constructor
  · intro herror
    obtain ⟨⟨d, hd⟩, -⟩ | ⟨e, he, hfaults⟩ := hwalk
    · rw [hd] at herror
      cases herror
    · obtain rfl := Except.error.inj (he.symm.trans herror)
      exact ⟨q, hstops, hfaults.missing_of_wrong hreason⟩
  · rintro ⟨q', hstops', hstring, hinside, rfl, rfl⟩
    obtain rfl := hstops.unique hstops'
    obtain ⟨-, hnil, -⟩ | ⟨e, he, hfaults⟩ := hwalk
    · exact absurd hnil hinside
    · rw [he]
      cases hfaults with
      | string hstring' _ => exact absurd hstring' hstring
      | missing => rfl
      | noDocument _ hnil _ => exact absurd hnil hinside
      | extraData hnil _ _ => exact absurd hnil hinside

theorem lag_of_missing (h : q.missing = reason) :
    q.lag mode =
      if reason = .comma ∧ q.inside.head? = some .array then mode.missedComma else 0 := by
  have hiff : q.expected = .separator ↔ reason = .comma := by
    rw [← h, missing]
    cases q.expected <;> simp
  simp only [lag, hiff]

end Place

open Place in
/-- **Where a missing delimiter is reported.**  A text whose tokens stop fitting inside a container
is refused for what is missing there: a comma, a colon, a name or a value.  The error names the index
of the first unit after the last complete token and the white space behind it, which is the length of
the text if it ends there; but a missing comma in an array is reported one unit later. -/
theorem decode_missing_delimiter (s : Text) (reason : Reason) (p : Int)
    (hreason : reason ∈ [.comma, .colon, .propertyName, .value]) :
    (decode s = .error (.wrong reason p) ↔
      ∃ q, StopsAt {} s q ∧ ¬ q.AtString ∧ q.inside ≠ [] ∧ q.missing = reason ∧
        p = (q.cursor.pos +
          if reason = .comma ∧ q.inside.head? = some .array then 1 else 0 : Nat)) ∧
    ∀ q, StopsAt {} s q → (∀ q', StopsAt {} s q' → q' = q) ∧
      q.cursor.pos ≤ s.length ∧ q.cursor.rest = s.drop q.cursor.pos ∧
      ∀ u ∈ q.cursor.rest.head?, Text.isAsciiBlank u.val = false := by
  have houtside : ¬ reason.InString := by
    simp only [List.mem_cons, List.not_mem_nil, or_false] at hreason
    rcases hreason with rfl | rfl | rfl | rfl <;> exact id
  refine ⟨?_, fun q hq => ⟨fun q' hq' => hq'.unique hq, hq.in_text⟩⟩
  rw [decode_eq_error_iff, parseSource_missing_iff houtside]
  constructor
  · rintro ⟨q, hstops, hstring, hinside, hmissing, rfl⟩
    exact ⟨q, hstops, hstring, hinside, hmissing, by rw [lag_of_missing hmissing, Int.natCast_add]⟩
  · rintro ⟨q, hstops, hstring, hinside, hmissing, rfl⟩
    exact ⟨q, hstops, hstring, hinside, hmissing, by rw [lag_of_missing hmissing, Int.natCast_add]⟩

open Place in
/-- Two strings in an object that stands in an array, without a colon between them. -/
theorem decode_missing_colon :
    let s : Text := [0x5B, 0x7B, 0x22, 0x22, 0x20, 0x22, 0x22, 0x7D, 0x5D]
    let q : Place := ⟨⟨5, [0x22, 0x22, 0x7D, 0x5D]⟩, [.object, .array], .colon, false⟩
    Reason.colon ∈ [Reason.comma, .colon, .propertyName, .value] ∧ StopsAt {} s q ∧
    ∀ p : Int, decode s = .error (.wrong .colon p) ↔ p = 5 := by
  intro s q
  have hreason : Reason.colon ∈ [Reason.comma, .colon, .propertyName, .value] := by simp
  have hstops : StopsAt {} s q := ⟨.head rfl (.head rfl (.single rfl)), rfl⟩
  refine ⟨hreason, hstops, fun p => ?_⟩
  obtain ⟨hdecode, hplace⟩ := decode_missing_delimiter s .colon p hreason
  rw [hdecode]
  constructor
  · rintro ⟨q', hstops', -, -, -, rfl⟩
    rw [(hplace q hstops).1 q' hstops']
    rfl
  · rintro rfl
    exact ⟨q, hstops, by simp [AtString, q], by simp [q], rfl, rfl⟩

open Place in
/-- In an array the second of two strings stands where a comma is missing, and the error names a
unit inside of it.  After the only string of an array that is not closed it names no place of the
text. -/
theorem missing_comma_out_of_place :
    (¬ ∀ (s : Text) (reason : Reason) (p : Int),
      reason ∈ [Reason.comma, .colon, .propertyName, .value] → decode s = .error (.wrong reason p) →
        ∃ q, StopsAt {} s q ∧ p = q.cursor.pos) ∧
    decode [0x5B, 0x22, 0x22] = .error (.wrong .comma 4) := by
  have hcomma : ¬ Reason.InString .comma := id
  constructor
  · intro h
    let s : Text := [0x5B, 0x22, 0x22, 0x20, 0x22, 0x22, 0x5D]
    let q : Place := ⟨⟨4, [0x22, 0x22, 0x5D]⟩, [.array], .separator, false⟩
    have hstops : StopsAt {} s q := ⟨.head rfl (.single rfl), rfl⟩
    have hdecode : decode s = .error (.wrong .comma 5) := by
      rw [decode_eq_error_iff, parseSource_missing_iff hcomma]
      exact ⟨q, hstops, by simp [AtString, q], by simp [q], rfl, rfl⟩
    obtain ⟨q', hstops', hplace⟩ := h s .comma 5 (by simp) hdecode
    rw [hstops'.unique hstops] at hplace
    cases hplace
  · rw [decode_eq_error_iff, parseSource_missing_iff hcomma]
    have hstops : StopsAt {} [0x5B, 0x22, 0x22] ⟨⟨3, []⟩, [.array], .separator, false⟩ :=
      ⟨.head rfl (.single rfl), rfl⟩
    exact ⟨_, hstops, by simp [AtString], by simp, rfl, rfl⟩

end AddonBuilder.Json
