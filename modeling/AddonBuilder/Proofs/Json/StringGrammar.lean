import AddonBuilder.Proofs.Json.StringText

/-!
# The grammar of strings

A string of the format is a sequence of plain units and of escapes, closed by a quote (`StringOf`).
An escape of the format (`JsonEscape`) is one of eight letters, four hexadecimal digits, or two such
quadruples that are a surrogate pair.
-/

namespace AddonBuilder.Json

open Option List

/-- The units of a string up to its closing quote and the text that they denote, for the given escapes.
Control characters are not allowed. -/
inductive StringOf (escape : Text → CodePoint → Prop) : Text → Text → Prop
  | close : StringOf escape [0x22] []
  | plain {c : CodePoint} {body t : Text} (hquote : c ≠ 0x22) (hback : c ≠ 0x5C)
      (hcontrol : 0x20 ≤ c.val) (tail : StringOf escape body t) :
      StringOf escape (c :: body) (c :: t)
  | escaped {e body t : Text} {p : CodePoint} (he : escape e p) (tail : StringOf escape body t) :
      StringOf escape (e ++ body) (p :: t)

/-- The letters that may follow a backslash, and what they denote with it. -/
def escapeLetters : List (CodePoint × CodePoint) :=
  [(0x22, 0x22), (0x5C, 0x5C), (0x2F, 0x2F), (0x62, 0x08), (0x66, 0x0C), (0x6E, 0x0A), (0x72, 0x0D),
    (0x74, 0x09)]

/-- The escapes of the format. -/
inductive JsonEscape : Text → CodePoint → Prop
  | letter {e p : CodePoint} (h : (e, p) ∈ escapeLetters) : JsonEscape [0x5C, e] p
  | number {a b c d p : CodePoint} (hp : hexQuad? a b c d = some p.val)
      (halone : ¬ (0xD800 ≤ p.val ∧ p.val ≤ 0xDBFF)) :
      JsonEscape [0x5C, 0x75, a, b, c, d] p
  | pair {a b c d a' b' c' d' p : CodePoint} {high low : Nat}
      (hhigh : hexQuad? a b c d = some high) (hrange : 0xD800 ≤ high ∧ high ≤ 0xDBFF)
      (hlow : hexQuad? a' b' c' d' = some low) (hrange' : 0xDC00 ≤ low ∧ low ≤ 0xDFFF)
      (hp : p.val = 0x10000 + (high - 0xD800) * 0x400 + (low - 0xDC00)) :
      JsonEscape [0x5C, 0x75, a, b, c, d, 0x5C, 0x75, a', b', c', d'] p

/-- An escape whose numbers are written in hexadecimal digits, and whose second number, if there is
one, is the second half of a surrogate pair. -/
def ExactEscape : Text → Prop
  | [_, _, a, b, c, d] => (hexQuad? a b c d).isSome
  | [_, _, a, b, c, d, _, _, a', b', c', d'] =>
    (hexQuad? a b c d).isSome ∧ ∃ low, hexQuad? a' b' c' d' = some low ∧ 0xDC00 ≤ low ∧ low ≤ 0xDFFF
  | _ => True

variable {numerals : Numerals}

/-! ### Escapes -/

theorem simpleEscape?_eq_some_iff {e p : CodePoint} :
    simpleEscape? e = some p ↔ (e, p) ∈ escapeLetters := by
  constructor
  · intro h
    unfold simpleEscape? at h
    split at h
    · rename_i hself
      obtain rfl := some.inj h
      simp only [Bool.or_eq_true, decide_eq_true_eq] at hself
      rcases hself with (rfl | rfl) | rfl <;> decide
    -- Five letters stand for another code point.
    iterate 5
      split at h
      · subst e
        obtain rfl := some.inj h
        decide
    cases h
  · intro h
    simp only [escapeLetters, mem_cons, not_mem_nil, or_false, Prod.mk.injEq] at h
    rcases h with h | h | h | h | h | h | h | h <;>
      · obtain ⟨rfl, rfl⟩ := h
        rfl

theorem joinSurrogates_eq {high low : Nat} (hhigh : 0xD800 ≤ high ∧ high ≤ 0xDBFF)
    (hlow : 0xDC00 ≤ low ∧ low ≤ 0xDFFF) :
    joinSurrogates high low =
      ((0x10000 + (high - 0xD800) * 0x400 + (low - 0xDC00) : Nat) : Int) := by
  obtain ⟨h, rfl⟩ : ∃ h, high = 0xD800 + h := ⟨high - 0xD800, by omega⟩
  obtain ⟨l, rfl⟩ : ∃ l, low = 0xDC00 + l := ⟨low - 0xDC00, by omega⟩
  have hsplit := joinSurrogates_split (n := 0x10000 + h * 0x400 + l) (by omega) (by omega)
  grind

theorem pointOfInt?_eq_some_iff {n : Nat} {p : CodePoint} :
    pointOfInt? (n : Int) = some p ↔ p.val = n := by
  constructor
  · intro h
    have hneg : ¬ (n : Int) < 0 := by omega
    rw [pointOfInt?, if_neg hneg, Int.toNat_natCast, CodePoint.ofNat?] at h
    split at h
    · rw [← some.inj h]
    · cases h
  · rintro rfl
    exact pointOfInt?_val p

/-- **The escapes of the format are the exact ones that the scanner takes.** -/
theorem jsonEscape_iff (mode : Mode) {e : Text} {p : CodePoint} :
    JsonEscape e p ↔ Escape mode e p ∧ ExactEscape e := by
  constructor
  · intro h
    cases h with
    | letter h => exact ⟨.letter (simpleEscape?_eq_some_iff.2 h), trivial⟩
    | number hp halone =>
      refine ⟨.number (mode.numerals.hex hp) (by omega) (pointOfInt?_val p), ?_⟩
      simp [ExactEscape, hp]
    | pair hhigh hrange hlow hrange' hp =>
      refine ⟨.pair (mode.numerals.hex hhigh) (by omega) (mode.numerals.hex hlow) ?_, ?_⟩
      · rw [Int.toNat_natCast, joinSurrogates_eq hrange hrange', ← hp]
        exact pointOfInt?_val p
      · exact ⟨by simp [hhigh], _, hlow, hrange'⟩
  · rintro ⟨h, hexact⟩
    cases h with
    | letter hp => exact .letter (simpleEscape?_eq_some_iff.1 hp)
    | number hn halone hp =>
      obtain ⟨n, hquad⟩ := isSome_iff_exists.1 hexact
      obtain rfl := some.inj ((mode.numerals.hex hquad).symm.trans hn)
      obtain rfl := pointOfInt?_eq_some_iff.1 hp
      exact .number hquad (by omega)
    | pair hhigh hrange hlow hp =>
      obtain ⟨hfirst, low, hquad', hrange'⟩ := hexact
      obtain ⟨high, hquad⟩ := isSome_iff_exists.1 hfirst
      obtain rfl := some.inj ((mode.numerals.hex hquad).symm.trans hhigh)
      obtain rfl := some.inj ((mode.numerals.hex hquad').symm.trans hlow)
      have hrange : 0xD800 ≤ high ∧ high ≤ 0xDBFF := by omega
      rw [Int.toNat_natCast, joinSurrogates_eq hrange hrange', pointOfInt?_eq_some_iff] at hp
      exact .pair hquad hrange hquad' hrange' hp

/-! ### Strings -/

theorem StringOf.imp {escape escape' : Text → CodePoint → Prop}
    (himp : ∀ e p, escape e p → escape' e p) {body t : Text} (h : StringOf escape body t) :
    StringOf escape' body t := by
  induction h with
  | close => exact .close
  | plain hquote hback hcontrol _ ih => exact .plain hquote hback hcontrol ih
  | escaped he _ ih => exact .escaped (himp _ _ he) ih

theorem StringBody.stringOf {run body s : Text} (h : StringBody numerals.mode run body s) :
    ∃ t, s = run.reverse ++ t ∧ StringOf (Escape numerals.mode) body t := by
  have hchunk : ∀ {run t : Text}, numerals.mode.alphabet.chunk? run.reverse = some t →
      t = run.reverse := fun ht => (some.inj ht).symm
  induction h with
  | close ht => exact ⟨[], by rw [hchunk ht, append_nil], .close⟩
  | escape ht he _ ih =>
    obtain ⟨t, rfl, htail⟩ := ih
    exact ⟨_, by rw [hchunk ht], .escaped he htail⟩
  | control _ _ _ hstrict => cases hstrict
  | plain hquote hback hlow _ ih =>
    obtain ⟨t, rfl, htail⟩ := ih
    exact ⟨_, by simp, .plain hquote hback (by omega) htail⟩

theorem StringOf.stringBody {body t : Text} (h : StringOf (Escape numerals.mode) body t) :
    StringBody numerals.mode [] body t := by
  induction h with
  | close => exact .close rfl
  | @plain c body t hquote hback hcontrol _ ih =>
    exact stringBody_point ih [c] (.inr ⟨rfl, hquote, hback, by omega⟩)
  | escaped he _ ih => exact stringBody_point ih _ (.inl he)

/-- The scanner's tokens are the grammar's strings. -/
theorem stringToken_iff_stringOf {body t : Text} :
    StringToken numerals.mode body t ↔ StringOf (Escape numerals.mode) body t := by
  rw [stringToken_iff]
  constructor
  · intro h
    obtain ⟨t, rfl, ht⟩ := h.stringOf
    exact ht
  · exact StringOf.stringBody

theorem scanString_eq_ok_iff {pos : Nat} {text v : Text} {c : Cursor} :
    scanString numerals.mode ⟨pos, text⟩ = .ok (v, c) ↔
      ∃ body, text = body ++ c.rest ∧ c.pos = pos + body.length ∧
        StringOf (Escape numerals.mode) body v := by
  constructor
  · intro h
    obtain ⟨body, hrest, hposition, htoken⟩ := token_of_scanString h
    exact ⟨body, hrest, hposition, stringToken_iff_stringOf.1 htoken⟩
  · rintro ⟨body, rfl, hposition, hbody⟩
    rw [scanString_of_token (stringToken_iff_stringOf.2 hbody), ← hposition]

/-- **What is scanned as a string.**  After an opening quote the scanner yields a text and the place
behind the closing quote exactly if a string with the scanner's escapes stands there, and otherwise an
error at a position.  So it reads every string of the format as the format says; and the escapes that
it takes beyond the format are those that are not exact.  All this holds however the four characters
of an escape are read as a number, as long as hexadecimal digits have their value. -/
theorem scanString_accepts (numerals : Numerals) (pos : Nat) (text : Text) :
    (∀ v c, scanString numerals.mode ⟨pos, text⟩ = .ok (v, c) ↔
      ∃ body, text = body ++ c.rest ∧ c.pos = pos + body.length ∧
        StringOf (Escape numerals.mode) body v) ∧
    (∀ e, scanString numerals.mode ⟨pos, text⟩ = .error e → ∃ reason place, e = .wrong reason place) ∧
    (∀ body rest v, text = body ++ rest → StringOf JsonEscape body v →
      scanString numerals.mode ⟨pos, text⟩ = .ok (v, ⟨pos + body.length, rest⟩)) ∧
    ∀ e p, JsonEscape e p ↔ Escape numerals.mode e p ∧ ExactEscape e := by
  refine ⟨fun v c => scanString_eq_ok_iff, fun e h => (inString_of_scanFrom h).exists_wrong rfl, ?_,
    fun e p => jsonEscape_iff _⟩
  rintro body rest v rfl hbody
  exact scanString_eq_ok_iff.2 ⟨body, rfl, rfl, hbody.imp fun e p h => ((jsonEscape_iff _).1 h).1⟩

/-- A sign among the digits of an escape, and a first half of a pair before a letter. -/
theorem not_json_strings :
    (¬ ∀ (pos : Nat) (text v : Text) (c : Cursor),
      scanString {} ⟨pos, text⟩ = .ok (v, c) ↔
        ∃ body, text = body ++ c.rest ∧ c.pos = pos + body.length ∧ StringOf JsonEscape body v) ∧
    scanString {} ⟨1, [0x5C, 0x75, 0x64, 0x38, 0x30, 0x30, 0x5C, 0x75, 0x30, 0x30, 0x34, 0x31, 0x22]⟩ =
      .ok ([0x2441], ⟨14, []⟩) := by
  constructor
  · intro h
    have hsign : Escape {} [0x5C, 0x75, 0x2B, 0x30, 0x34, 0x31] 0x41 :=
      .number (n := 0x41) (by decide) (by decide) (by decide)
    have hscan : scanString {} ⟨1, [0x5C, 0x75, 0x2B, 0x30, 0x34, 0x31, 0x22]⟩ =
        .ok ([0x41], ⟨8, []⟩) :=
      scanString_eq_ok_iff.2 ⟨_, (append_nil _).symm, rfl, .escaped hsign .close⟩
    obtain ⟨body, htext, -, hbody⟩ := (h _ _ _ _).1 hscan
    rw [append_nil] at htext
    cases hbody with
    | plain _ hback => exact hback (List.cons.inj htext).1.symm
    | escaped he _ =>
      cases he with
      | letter hletter =>
        obtain rfl := (List.cons.inj (List.cons.inj htext).2).1
        simp [escapeLetters] at hletter
      | number hp | pair hp =>
        obtain rfl := (List.cons.inj (List.cons.inj (List.cons.inj htext).2).2).1
        cases hp
  · have hhigh : quad? .allScripts 0x64 0x38 0x30 0x30 = some 0xD800 := by decide
    have hlow : quad? .allScripts 0x30 0x30 0x34 0x31 = some 0x41 := by decide
    have hpair : Escape {} [0x5C, 0x75, 0x64, 0x38, 0x30, 0x30, 0x5C, 0x75, 0x30, 0x30, 0x34, 0x31]
        0x2441 := .pair hhigh (by decide) hlow (by decide)
    exact scanString_eq_ok_iff.2 ⟨_, (append_nil _).symm, rfl, .escaped hpair .close⟩

end AddonBuilder.Json
