import AddonBuilder.Proofs.Json.Printable
import AddonBuilder.Proofs.Json.StringGrammar
import AddonBuilder.Proofs.Text.Integer

/-!
# Strings of ASCII and back

A text written as a string of ASCII is scanned back unless it holds a code point in `D800`..`DBFF`.
One direction is `stringText_token`.
-/

namespace AddonBuilder.Json

open List

/-! ### How many units a code point is written with -/

theorem length_numericEscape {n : Nat} (hn : n < 0x10000) : (numericEscape n).length = 6 := by
  rw [numericEscape_eq hn]
  rfl

theorem length_commonEscape? {p : CodePoint} {e : Text} (h : commonEscape? p = some e) :
    e.length = 2 ∨ e.length = 6 := by
  unfold commonEscape? at h
  -- Seven code points have a letter of their own.
  iterate 7
    split at h
    · obtain rfl := Option.some.inj h
      exact .inl rfl
  split at h
  · obtain rfl := Option.some.inj h
    exact .inr (length_numericEscape (by omega))
  · cases h

theorem length_escapePointAscii_le (p : CodePoint) :
    (escapePointAscii p).length ≤ if p.val < 0x10000 then 6 else 12 := by
  unfold escapePointAscii
  cases hcommon : commonEscape? p with
  | some e =>
    have := length_commonEscape? hcommon
    dsimp only
    split <;> omega
  | none =>
    dsimp only
    split
    · split <;> simp
    · split
      · exact Nat.le_of_eq (length_numericEscape ‹_›)
      · rw [length_append, length_numericEscape (by omega), length_numericEscape (by omega)]

theorem escapePointAscii_plain {c : CodePoint} (hquote : c ≠ 0x22) (hback : c ≠ 0x5C)
    (hlow : 0x20 ≤ c.val) (hascii : c.val ≤ 0x7E) : escapePointAscii c = [c] := by
  have hcommon : commonEscape? c = none := by
    have hcontrol : ∀ d : CodePoint, d.val < 0x20 → c ≠ d := by
      rintro d hd rfl
      omega
    simp [commonEscape?, hquote, hback, hcontrol 0x08 (by decide), hcontrol 0x0C (by decide),
      hcontrol 0x0A (by decide), hcontrol 0x0D (by decide), hcontrol 0x09 (by decide)]
    omega
  simp [escapePointAscii, hcommon, hascii]

/-! ### Counting units -/

theorem quad?_lt {set : Text.DigitSet} {a b c d : CodePoint} {n : Int}
    (h : quad? set a b c d = some n) : n < 0x10000 := by
  have hlt := Text.integer?_lt (by decide) h
  simpa using hlt

theorem isHighSurrogate_iff {p : CodePoint} :
    p.isHighSurrogate ↔ 0xD800 ≤ p.val ∧ p.val ≤ 0xDBFF := by
  simp [CodePoint.isHighSurrogate]

/-- **An escape is no shorter than what it names is written**, and six units longer if that is in
`D800`..`DBFF`. -/
theorem Escape.length_add_le {e : Text} {p : CodePoint} (h : Escape {} e p) :
    (escapePointAscii p).length + 6 * (if p.isHighSurrogate then 1 else 0) ≤ e.length := by
  have hle := length_escapePointAscii_le p
  cases h with
  | @letter e p hp =>
    have hletters : escapeLetters.all (fun q => decide ((escapePointAscii q.2).length +
        6 * (if q.2.isHighSurrogate then 1 else 0) ≤ 2)) := by
      decide
    exact of_decide_eq_true (all_eq_true.1 hletters _ (simpleEscape?_eq_some_iff.1 hp))
  | @number a b c d p n hn halone hp =>
    have hlt := quad?_lt hn
    have hpos : 0 ≤ n := by
      apply Decidable.byContradiction
      intro hneg
      rw [pointOfInt?, if_pos (by omega)] at hp
      cases hp
    obtain ⟨m, rfl⟩ := Int.eq_ofNat_of_zero_le hpos
    have hval := pointOfInt?_eq_some_iff.1 hp
    have hlone : ¬ p.isHighSurrogate := by
      rw [isHighSurrogate_iff]
      omega
    rw [if_pos (by omega)] at hle
    rw [if_neg hlone]
    exact hle
  | pair hhigh hrange hlow hp =>
    split
    · rename_i hsurrogate
      have hval := isHighSurrogate_iff.1 hsurrogate
      rw [if_pos (by omega)] at hle
      simpa using hle
    · have hbound : (if p.val < 0x10000 then 6 else 12) ≤ 12 := by split <;> omega
      exact Nat.le_trans hle hbound

/-- **What is scanned from units of ASCII is written in no more units**, and in six fewer for each of
its code points in `D800`..`DBFF`. -/
theorem StringOf.length_add_le {body t : Text} (h : StringOf (Escape {}) body t)
    (hascii : ∀ u ∈ body, u.val ≤ 0x7E) :
    (t.flatMap escapePointAscii).length + 6 * t.countP CodePoint.isHighSurrogate + 1 ≤
      body.length := by
  induction h with
  | close => simp
  | @plain c body t hquote hback hcontrol _ ih =>
    have htail := ih fun u hu => hascii u (mem_cons_of_mem c hu)
    have hc : c.val ≤ 0x7E := hascii c mem_cons_self
    have hlone : ¬ c.isHighSurrogate := by
      rw [isHighSurrogate_iff]
      omega
    rw [flatMap_cons, escapePointAscii_plain hquote hback hcontrol hc, countP_cons,
      if_neg hlone, length_append, length_singleton, length_cons]
    omega
  | @escaped e body t p he _ ih =>
    have htail := ih fun u hu => hascii u (mem_append_right e hu)
    have hfirst := he.length_add_le
    rw [flatMap_cons, countP_cons, length_append, length_append]
    omega

/-! ### Scanned back -/

/-- A string is scanned back just behind its opening quote if its body stands for the text. -/
theorem scanString_stringText_iff {asciiOnly : Bool} {t : Text} :
    scanString {} (Cursor.advance ⟨0, stringText asciiOnly t⟩ 1) =
        .ok (t, ⟨(stringText asciiOnly t).length, []⟩) ↔
      StringOf (Escape {}) (stringText asciiOnly t).tail t := by
  have hcursor : Cursor.advance ⟨0, stringText asciiOnly t⟩ 1 = ⟨1, (stringText asciiOnly t).tail⟩ := by
    simp [Cursor.advance]
  have hlen : (stringText asciiOnly t).length = 1 + (stringText asciiOnly t).tail.length := by
    rw [stringText, tail_cons, length_cons, Nat.add_comm]
  rw [hcursor, scanString_eq_ok_iff]
  grind

/-- **Strings and back.**  A text written as a string of ASCII has units that can be printed only, and
it is scanned back exactly if none of its code points is in `D800`..`DBFF`.  A text written as a string
that may hold any character is always scanned back. -/
theorem scanString_stringText (t : Text) : (∀ u ∈ stringText true t, 0x20 ≤ u.val ∧ u.val ≤ 0x7E) ∧
    (scanString {} (Cursor.advance ⟨0, stringText true t⟩ 1) =
        .ok (t, ⟨(stringText true t).length, []⟩) ↔
      ∀ p ∈ t, ¬ (0xD800 ≤ p.val ∧ p.val ≤ 0xDBFF)) ∧
    scanString {} (Cursor.advance ⟨0, stringText false t⟩ 1) =
      .ok (t, ⟨(stringText false t).length, []⟩) := by
  have hback : ∀ asciiOnly : Bool, (asciiOnly = true → ∀ p ∈ t, p.isHighSurrogate = false) →
      StringOf (Escape {}) (stringText asciiOnly t).tail t := by
    intro asciiOnly ht
    obtain ⟨body, htext, htoken⟩ := stringText_token asciiOnly ht
    rw [htext, tail_cons]
    exact stringToken_iff_stringOf.1 htoken
  refine ⟨printable_stringText t, ?_, ?_⟩
  · rw [scanString_stringText_iff]
    constructor
    · intro hbody p hp hrange
      -- The string has just the units that the text is written with, so there are none to spare.
      have hascii : ∀ u ∈ (stringText true t).tail, u.val ≤ 0x7E := fun u hu =>
        (printable_stringText t u (mem_of_mem_tail hu)).2
      have hcount := hbody.length_add_le hascii
      have hlen : (stringText true t).tail.length = (t.flatMap escapePointAscii).length + 1 := by
        rw [stringText, tail_cons, if_pos rfl, length_append, length_singleton]
      have hpositive : 0 < t.countP CodePoint.isHighSurrogate :=
        countP_pos_iff.2 ⟨p, hp, isHighSurrogate_iff.2 hrange⟩
      omega
    · intro hnone
      refine hback true fun _ p hp => ?_
      rw [← Bool.not_eq_true, isHighSurrogate_iff]
      exact hnone p hp
  · rw [scanString_stringText_iff]
    exact hback false fun h => by cases h

end AddonBuilder.Json
