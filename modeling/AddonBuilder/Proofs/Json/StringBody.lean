import AddonBuilder.Json.Parser

/-!
# What a string is made of

`scanFrom` reads a string by position.
-/

namespace AddonBuilder.Json

open List

variable {run out t text s body : Text} {mode : Mode} {start : Int} {pos : Nat} {c : Cursor}

/-- One escape of a string, from its backslash on, and the code point it names. -/
inductive Escape (mode : Mode) : Text → CodePoint → Prop
  | letter {e p : CodePoint} (hp : simpleEscape? e = some p) : Escape mode [0x5C, e] p
  | number {a b c d p : CodePoint} {n : Int} (hn : mode.numerals.value? a b c d = some n)
      (halone : ¬ (0xD800 ≤ n ∧ n ≤ 0xDBFF))
      (hp : pointOfInt? n = some p) :
      Escape mode [0x5C, 0x75, a, b, c, d] p
  | pair {a b c d a' b' c' d' p : CodePoint} {high low : Int}
      (hhigh : mode.numerals.value? a b c d = some high)
      (hrange : 0xD800 ≤ high ∧ high ≤ 0xDBFF)
      (hlow : mode.numerals.value? a' b' c' d' = some low)
      (hp : pointOfInt? (joinSurrogates high.toNat low) = some p) :
      Escape mode [0x5C, 0x75, a, b, c, d, 0x5C, 0x75, a', b', c', d'] p

/-- The units of a string up to its closing quote and the text they stand for.  The first argument
holds, backwards, the plain units just before them, which are decoded together with what follows. -/
inductive StringBody (mode : Mode) : Text → Text → Text → Prop
  | close {run t : Text} (ht : mode.alphabet.chunk? run.reverse = some t) :
      StringBody mode run [0x22] t
  | escape {run t e body s : Text} {p : CodePoint} (ht : mode.alphabet.chunk? run.reverse = some t)
      (he : Escape mode e p)
      (tail : StringBody mode [] body s) :
      StringBody mode run (e ++ body) (t ++ p :: s)
  | control {run t body s : Text} {c : CodePoint}
      (hquote : c ≠ 0x22) (hback : c ≠ 0x5C) (hlow : c.val < 0x20)
      (hstrict : mode.strict = false)
      (ht : mode.alphabet.chunk? run.reverse = some t)
      (tail : StringBody mode [] body s) :
      StringBody mode run (c :: body) (t ++ c :: s)
  | plain {run body s : Text} {c : CodePoint}
      (hquote : c ≠ 0x22) (hback : c ≠ 0x5C) (hlow : ¬ c.val < 0x20)
      (tail : StringBody mode (c :: run) body s) :
      StringBody mode run (c :: body) s

/-- A flushed run is decoded and put, backwards, in front of what was read before it. -/
theorem flush_eq_ok_iff {alphabet : Alphabet} {out' : Text} :
    flush alphabet run out = .ok out' ↔
      ∃ t, alphabet.chunk? run.reverse = some t ∧ out' = t.reverse ++ out := by
  unfold flush
  cases h : alphabet.chunk? run.reverse with
  | none => simp
  | some t => simp [eq_comm]

theorem scanFrom_escape {e : Text} {p : CodePoint} (he : Escape mode e p)
    (ht : mode.alphabet.chunk? run.reverse = some t) (start : Int) (pos : Nat) (rest : Text) :
    scanFrom mode start run out pos (e ++ rest) =
      scanFrom mode start [] (p :: (t.reverse ++ out)) (pos + e.length) rest := by
  have hflush : flush mode.alphabet run out = .ok (t.reverse ++ out) :=
    flush_eq_ok_iff.2 ⟨t, ht, rfl⟩
  have hback : (0x5C : CodePoint) ≠ 0x22 := by decide
  cases he with
  | @letter e p hp =>
    have hu : e ≠ 0x75 := by
      rintro rfl
      simp [simpleEscape?] at hp
    simp only [cons_append, nil_append]
    rw [scanFrom]
    simp [hback, hflush, bind, Except.bind, hu, hp]
  | number hn halone hp =>
    simp only [cons_append, nil_append]
    rw [scanFrom]
    simp [hback, hflush, bind, Except.bind, hn, halone, hp]
  | pair hhigh hrange hlow hp =>
    simp only [cons_append, nil_append]
    rw [scanFrom]
    simp [hback, hflush, bind, Except.bind, hhigh, hrange, hlow, hp]

/-- What can be wrong inside a string. -/
def Reason.InString : Reason → Prop
  | unterminatedString | controlCharacter | escape _ | unicodeEscape | surrogatePair => True
  | propertyName | colon | comma | value => False

/-- What can go wrong inside a string: something at a position, or, where the units are bytes, their
decoding. -/
def ParseError.InString (mode : Mode) : ParseError → Prop
  | wrong reason _ => reason.InString
  | undecodable => mode.alphabet ≠ .characters
  | noDocument | extraData _ _ => False

/-- What a scan finds at a backslash: an escape, or something wrong. -/
theorem escape_or_wrong {rest : Text} {x : Except ParseError (Text × Cursor)}
    (ht : mode.alphabet.chunk? run.reverse = some t)
    (h : scanFrom mode start run out pos (0x5C :: rest) = x) :
    (∃ e p after, 0x5C :: rest = e ++ after ∧ Escape mode e p) ∨
      ∃ reason place, x = .error (.wrong reason place) ∧ reason.InString := by
  have hback : (0x5C : CodePoint) ≠ 0x22 := by decide
  have hflush : flush mode.alphabet run out = .ok (t.reverse ++ out) :=
    flush_eq_ok_iff.2 ⟨t, ht, rfl⟩
  rw [scanFrom] at h
  simp only [hback, hflush, bind, Except.bind, if_true, if_false] at h
  split at h
  · exact .inr ⟨_, _, h.symm, trivial⟩
  · rename_i e after
    split at h
    · subst e
      split at h
      · rename_i a b c d after
        split at h
        · exact .inr ⟨_, _, h.symm, trivial⟩
        · rename_i n hn
          split at h
          · rename_i hrange
            split at h
            · rename_i s u a' b' c' d' after
              split at h
              · rename_i hsu
                split at h
                · exact .inr ⟨_, _, h.symm, trivial⟩
                · rename_i p hp
                  obtain ⟨low, hlow, hp⟩ := Option.bind_eq_some_iff.1 hp
                  simp only [Bool.and_eq_true, decide_eq_true_eq] at hsu hrange
                  obtain ⟨rfl, rfl⟩ := hsu
                  exact .inl ⟨_, p, after, rfl, .pair hn hrange hlow hp⟩
              · exact .inr ⟨_, _, h.symm, trivial⟩
            · exact .inr ⟨_, _, h.symm, trivial⟩
          · rename_i halone
            split at h
            · exact .inr ⟨_, _, h.symm, trivial⟩
            · rename_i p hp
              simp only [Bool.and_eq_true, decide_eq_true_eq] at halone
              exact .inl ⟨_, p, after, rfl, .number hn halone hp⟩
      · exact .inr ⟨_, _, h.symm, trivial⟩
    · split at h
      · exact .inr ⟨_, _, h.symm, trivial⟩
      · rename_i p hp
        exact .inl ⟨_, p, after, rfl, .letter hp⟩

/-- **A body stands there, or something inside the string is wrong.** -/
theorem stringBody_or_error (mode : Mode) (start : Int) (run out : Text) (pos : Nat)
    (text : Text) : (∃ body rest t, text = body ++ rest ∧ StringBody mode run body t) ∨
      ∃ e, scanFrom mode start run out pos text = .error e ∧ e.InString mode := by
  -- An escape takes several units at once, so the induction is on the length of the text.
  induction hn : text.length using Nat.strongRecOn generalizing run out text pos with
  | ind n ih =>
    cases text with
    | nil => exact .inr ⟨_, rfl, trivial⟩
    | cons u rest =>
      have hlen : rest.length < n := by simp at hn; omega
      by_cases hplain : u ≠ 0x22 ∧ u ≠ 0x5C ∧ ¬ u.val < 0x20
      · obtain ⟨hquote, hback, hlow⟩ := hplain
        have hscan : scanFrom mode start run out pos (u :: rest) =
            scanFrom mode start (u :: run) out (pos + 1) rest := by
          rw [scanFrom]
          simp only [hquote, hback, hlow, if_false]
        rw [hscan]
        obtain ⟨body, rest, t, rfl, hbody⟩ | herror := ih _ hlen (u :: run) out (pos + 1) rest rfl
        · exact .inl ⟨u :: body, rest, t, rfl, .plain hquote hback hlow hbody⟩
        · exact .inr herror
      cases ht : mode.alphabet.chunk? run.reverse with
      | none =>
        have hmode : mode.alphabet ≠ .characters := by
          intro hmode
          rw [hmode] at ht
          cases ht
        refine .inr ⟨.undecodable, ?_, hmode⟩
        rw [scanFrom, flush, ht]
        split
        · rfl
        split
        · rfl
        rename_i hquote hback
        rw [if_pos (by simpa [hquote, hback] using hplain)]
        rfl
      | some t =>
        by_cases hquote : u = 0x22
        · subst u
          exact .inl ⟨[0x22], rest, t, rfl, .close ht⟩
        by_cases hback : u = 0x5C
        · subst u
          obtain ⟨e, p, after, hrest, he⟩ | ⟨reason, place, herror, hreason⟩ :=
            escape_or_wrong ht (rfl : scanFrom mode start run out pos (0x5C :: rest) = _)
          · have hpos : 0 < e.length := by cases he <;> simp
            have hlen : after.length < n := by
              have hsum := congrArg length hrest
              simp only [length_append] at hsum
              omega
            rw [hrest, scanFrom_escape he ht]
            obtain ⟨body, rest, t', rfl, hbody⟩ | herror :=
              ih _ hlen [] (p :: (t.reverse ++ out)) (pos + e.length) after rfl
            · exact .inl ⟨e ++ body, rest, _, by simp, .escape ht he hbody⟩
            · exact .inr herror
          · exact .inr ⟨_, herror, hreason⟩
        have hlow : u.val < 0x20 := by simpa [hquote, hback] using hplain
        have hflush : flush mode.alphabet run out = .ok (t.reverse ++ out) :=
          flush_eq_ok_iff.2 ⟨t, ht, rfl⟩
        rw [scanFrom]
        simp only [hquote, hback, hlow, hflush, bind, Except.bind, if_true, if_false]
        cases hstrict : mode.strict with
        | true => exact .inr ⟨_, rfl, trivial⟩
        | false =>
          obtain ⟨body, rest, t', rfl, hbody⟩ | herror :=
            ih _ hlen [] (u :: (t.reverse ++ out)) (pos + 1) rest rfl
          · exact .inl ⟨u :: body, rest, _, rfl, .control hquote hback hlow hstrict ht hbody⟩
          · exact .inr herror

theorem StringBody.scanFrom (h : StringBody mode run body t)
    (start : Int) (out : Text) (pos : Nat) (rest : Text) :
    scanFrom mode start run out pos (body ++ rest) =
      .ok (out.reverse ++ t, ⟨pos + body.length, rest⟩) := by
  induction h generalizing out pos with
  | close ht =>
    rw [singleton_append, Json.scanFrom]
    simp [flush_eq_ok_iff.2 ⟨_, ht, rfl⟩, bind, Except.bind, pure, Except.pure]
  | escape ht he tail ih =>
    rw [append_assoc, scanFrom_escape he ht, ih]
    simp [Nat.add_assoc]
  | control hquote hback hlow hstrict ht tail ih =>
    rw [cons_append, Json.scanFrom]
    simp only [hquote, hback, hlow, hstrict, flush_eq_ok_iff.2 ⟨_, ht, rfl⟩, bind, Except.bind,
      if_true, if_false, Bool.false_eq_true, ih]
    simp [Nat.add_assoc, Nat.add_comm 1]
  | plain hquote hback hlow tail ih =>
    rw [cons_append, Json.scanFrom]
    simp only [hquote, hback, hlow, if_false, ih]
    simp [Nat.add_assoc, Nat.add_comm 1]

/-- **A scan succeeds exactly on a body.**  It yields what was read before followed by the text of
the body, and stands right after it. -/
theorem scanFrom_eq_ok_iff :
    scanFrom mode start run out pos text = .ok (s, c) ↔
      ∃ body t, text = body ++ c.rest ∧ c.pos = pos + body.length ∧
        StringBody mode run body t ∧ s = out.reverse ++ t := by
  constructor
  · intro h
    obtain ⟨body, rest, t, rfl, hbody⟩ | ⟨e, herror, -⟩ :=
      stringBody_or_error mode start run out pos text
    · rw [hbody.scanFrom] at h
      grind
    · rw [herror] at h
      cases h
  · rintro ⟨body, t, rfl, hposition, hbody, rfl⟩
    rw [hbody.scanFrom, ← hposition]

/-- A scan fails for what is wrong inside the string. -/
theorem inString_of_scanFrom {e : ParseError}
    (h : scanFrom mode start run out pos text = .error e) : e.InString mode := by
  obtain ⟨body, rest, t, rfl, hbody⟩ | ⟨e', herror, he⟩ :=
    stringBody_or_error mode start run out pos text
  · rw [hbody.scanFrom] at h
    cases h
  · rwa [Except.error.inj (h.symm.trans herror)]

theorem ParseError.InString.exists_wrong {e : ParseError} (hmode : mode.alphabet = .characters)
    (h : e.InString mode) : ∃ reason place, e = .wrong reason place := by
  cases e with
  | wrong reason place => exact ⟨reason, place, rfl⟩
  | undecodable => exact absurd hmode h
  | noDocument | extraData => exact h.elim

/-- A text that the scanner takes as a string from after the opening quote to the closing one. -/
def StringToken (mode : Mode) (body t : Text) : Prop :=
  scanString mode ⟨0, body⟩ = .ok (t, ⟨body.length, []⟩)

theorem stringToken_iff : StringToken mode body t ↔ StringBody mode [] body t := by
  unfold StringToken scanString
  rw [scanFrom_eq_ok_iff]
  grind

/-- What the scanner takes after an opening quote is a string on its own. -/
theorem token_of_scanString {c' : Cursor} (h : scanString mode c = .ok (t, c')) :
    ∃ body, c.rest = body ++ c'.rest ∧ c'.pos = c.pos + body.length ∧ StringToken mode body t := by
  obtain ⟨body, t, hrest, hposition, hbody, rfl⟩ := scanFrom_eq_ok_iff.1 h
  exact ⟨body, hrest, hposition, stringToken_iff.2 (by simpa using hbody)⟩

/-- The body of a string is scanned up to its end, whatever follows. -/
theorem scanString_of_token (h : StringToken mode body t) (pos : Nat) (rest : Text) :
    scanString mode ⟨pos, body ++ rest⟩ = .ok (t, ⟨pos + body.length, rest⟩) := by
  unfold scanString
  simpa using (stringToken_iff.1 h).scanFrom (pos - 1 : Int) [] pos rest

end AddonBuilder.Json
