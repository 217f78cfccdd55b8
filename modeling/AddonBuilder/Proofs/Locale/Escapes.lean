import AddonBuilder.Locale.Properties
import Mathlib.Algebra.Group.Nat.Defs
import Mathlib.Data.List.Chain

/-!
# Texts without escapes

The escapes of a value are read in two steps: every code point above `FF` is first written as an
escape itself, and then all escapes are read.
-/

namespace AddonBuilder

namespace Text

/-! ## Hexadecimal digits -/

theorem digitValue?_digitChar : ∀ d < 16, digitValue? (Nat.digitChar d).toNat = some d := by decide

/-- Digits that are read after a number shift it by their places. -/
theorem foldlM_toDigits (n m : Nat) :
    ((Nat.toDigits 16 n).map Char.toNat).foldlM
      (fun n d => (digitValue? d).bind fun v => if v < 16 then some (n * 16 + v) else none) m =
        some (m * 16 ^ (Nat.toDigits 16 n).length + n) := by
  induction n using Nat.strongRecOn with
  | ind n ih =>
    rw [Nat.toDigits_eq_if (by decide)]
    by_cases hn : n < 16
    · simp [hn, digitValue?_digitChar n hn]
    · have hdigit : n % 16 < 16 := Nat.mod_lt n (by decide)
      rw [if_neg hn, List.map_append, List.foldlM_append, ih (n / 16) (by omega)]
      simp only [List.map_cons, List.map_nil, List.foldlM_cons, List.foldlM_nil,
        digitValue?_digitChar _ hdigit, hdigit, if_true, Option.bind_some, Option.bind_eq_bind,
        Option.pure_def, List.length_append, List.length_cons, List.length_nil, Nat.pow_succ]
      congr 1
      rw [Nat.add_mul, Nat.mul_assoc, Nat.add_assoc]
      congr 1
      omega

theorem foldlM_zeros (k : Nat) :
    ((List.replicate k '0').map Char.toNat).foldlM
      (fun n d => (digitValue? d).bind fun v => if v < 16 then some (n * 16 + v) else none) 0 =
        some 0 := by
  induction k with
  | zero => rfl
  | succ k ih => simpa [List.replicate_succ, digitValue?] using ih

theorem map_val_ofString (s : String) : (ofString s).map Fin.val = s.toList.map Char.toNat := by
  rw [ofString, List.map_map]
  rfl

/-- A number is read back from its digits, however many there are at least. -/
theorem digitsValue?_hex (width n : Nat) :
    digitsValue? 16 ((ofString (hex width n)).map Fin.val) = some n := by
  rw [map_val_ofString, hex, String.toList_ofList, List.map_append, digitsValue?, if_neg (by simp),
    List.foldlM_append, foldlM_zeros]
  simpa using foldlM_toDigits n 0

theorem length_ofString_hex {width n : Nat} (hwidth : 0 < width) (hn : n < 16 ^ width) :
    (ofString (hex width n)).length = width := by
  have hlen := (Nat.length_toDigits_le_iff (by decide) hwidth).2 hn
  simp only [ofString, hex, String.toList_ofList, List.length_map, List.length_append,
    List.length_replicate]
  omega

theorem backslash_not_mem_hex (width n : Nat) : 0x5C ∉ ofString (hex width n) := by
  have hdigits : ∀ m, '\\' ∉ Nat.toDigits 16 m := by
    intro m
    induction m using Nat.strongRecOn with
    | ind m ih =>
      rw [Nat.toDigits_eq_if (by decide)]
      grind
  intro hmem
  obtain ⟨c, hc, hcode⟩ := List.mem_map.1 hmem
  have hval : c.toNat = 0x5C := congrArg Fin.val hcode
  obtain rfl : c = '\\' := Char.toNat_inj.1 hval
  simp [hex, hdigits n] at hc

end Text

namespace Locale

open Json List

/-! ## Escapes of single code points -/

theorem hexPoint?_hex {width : Nat} (hwidth : 0 < width) {p : CodePoint} (hp : p.val < 16 ^ width)
    (rest : Text) : hexPoint? width (Text.ofString (Text.hex width p.val) ++ rest) = some (p, rest) := by
  have hlen := Text.length_ofString_hex hwidth hp
  have htake : (Text.ofString (Text.hex width p.val) ++ rest).take width =
      Text.ofString (Text.hex width p.val) := by
    rw [take_append_of_le_length hlen.ge, take_of_length_le hlen.le]
  have hdrop : (Text.ofString (Text.hex width p.val) ++ rest).drop width = rest := by
    rw [drop_append_of_le_length hlen.ge, drop_of_length_le hlen.le, nil_append]
  have hpoint : CodePoint.ofNat? p.val = some p := by
    rw [CodePoint.ofNat?, dif_pos p.isLt]
  simp only [hexPoint?, htake, hdrop, hlen, Nat.lt_irrefl, if_false, Text.digitsValue?_hex]
  simp [hpoint]

theorem readEscapes?_cons {c : CodePoint} (hc : c ≠ 0x5C) (t : Text) :
    readEscapes? (c :: t) = (readEscapes? t).map (c :: ·) := by
  cases t with
  | nil => simp [readEscapes?]
  | cons d t => rw [readEscapes?, if_pos hc]

/-- A backslash is kept with the unit after it, unless they begin an escape. -/
theorem readEscapes?_pair {d : CodePoint} (hu : d ≠ 0x75) (hU : d ≠ 0x55) (t : Text) :
    readEscapes? (0x5C :: d :: t) = (readEscapes? t).map fun t => 0x5C :: d :: t := by
  rw [readEscapes?, if_neg (by simp), if_neg (by simp [hu, hU])]

theorem readEscapes?_hex {mark p : CodePoint} (hmark : mark = 0x75 ∨ mark = 0x55)
    (hp : p.val < 16 ^ (if mark = 0x75 then 4 else 8)) (t : Text) :
    readEscapes?
        (0x5C :: mark :: (Text.ofString (Text.hex (if mark = 0x75 then 4 else 8) p.val) ++ t)) =
      (readEscapes? t).map (p :: ·) := by
  have hread := hexPoint?_hex (by split <;> decide) hp t
  rw [readEscapes?, if_neg (by simp), if_pos hmark]
  split
  · rename_i h
    cases hread.symm.trans h
    rfl
  · rename_i h
    cases hread.symm.trans h

theorem readEscapes?_escape {p : CodePoint} (hp : 0x100 ≤ p.val) (t : Text) :
    readEscapes? (escapeUnits [p] ++ t) = (readEscapes? t).map (p :: ·) := by
  have hshort : Text.ofString "\\u" = [0x5C, 0x75] := by decide
  have hlong : Text.ofString "\\U" = [0x5C, 0x55] := by decide
  by_cases hplane : p.val < 0x10000
  · simp only [escapeUnits, flatMap_cons, flatMap_nil, append_nil,
      if_neg (Nat.not_lt.2 hp), if_pos hplane, hshort, cons_append,
      nil_append]
    exact readEscapes?_hex (.inl rfl) hplane t
  · simp only [escapeUnits, flatMap_cons, flatMap_nil, append_nil,
      if_neg (Nat.not_lt.2 hp), if_neg hplane, hlong, cons_append,
      nil_append]
    exact readEscapes?_hex (.inr rfl) (p.isLt.trans (by decide)) t

theorem escapeUnits_cons (p : CodePoint) (t : Text) :
    escapeUnits (p :: t) = escapeUnits [p] ++ escapeUnits t := by
  simp [escapeUnits]

theorem escapeUnits_single {p : CodePoint} (hp : p.val < 0x100) : escapeUnits [p] = [p] := by
  simp [escapeUnits, hp]

theorem readEscapes?_append {l : Text} (h : 0x5C ∉ l) (t : Text) :
    readEscapes? (l ++ t) = (readEscapes? t).map (l ++ ·) := by
  induction l with
  | nil => simp
  | cons c l ih =>
    rw [mem_cons, not_or] at h
    rw [cons_append, readEscapes?_cons (Ne.symm h.1), ih h.2, Option.map_map]
    rfl

/-- An escape has one backslash, at its start, and stands for something else. -/
theorem exists_escapeUnits_eq {p : CodePoint} (hp : 0x100 ≤ p.val) :
    p ≠ 0x5C ∧ ∃ units, escapeUnits [p] = 0x5C :: units ∧ units ≠ [] ∧ 0x5C ∉ units := by
  refine ⟨fun h => absurd (h ▸ hp) (by decide), ?_⟩
  have hshort : Text.ofString "\\u" = [0x5C, 0x75] := by decide
  have hlong : Text.ofString "\\U" = [0x5C, 0x55] := by decide
  have hmark : ∀ {mark : CodePoint} {width : Nat}, mark ≠ 0x5C →
      0x5C ∉ mark :: Text.ofString (Text.hex width p.val) := fun hne =>
    not_mem_cons_of_ne_of_not_mem hne.symm (Text.backslash_not_mem_hex _ _)
  simp only [escapeUnits, flatMap_cons, flatMap_nil, append_nil,
    if_neg (Nat.not_lt.2 hp), hshort, hlong]
  grind

/-! ## Texts -/

/-- A text as it is read back: a code point above `FF` stays written as an escape if an odd number of
backslashes stands before it. -/
def spelled (odd : Bool) : Text → Text
  | [] => []
  | p :: t =>
    (if odd && 0x100 ≤ p.val then escapeUnits [p] else [p]) ++ spelled (p = 0x5C && !odd) t

/-- No backslash stands before a `u` or `U`. -/
def Unescaped (t : Text) : Prop := t.IsChain fun p q => p = 0x5C → q ≠ 0x75 ∧ q ≠ 0x55

instance (t : Text) : Decidable (Unescaped t) := inferInstanceAs (Decidable (IsChain _ t))

/-- What is read after an even number of backslashes, and after an odd one. -/
theorem readEscapes?_escapeUnits (t : Text) :
    (Unescaped t → readEscapes? (escapeUnits t) = some (spelled false t)) ∧
      (Unescaped (0x5C :: t) →
        readEscapes? (0x5C :: escapeUnits t) = some (0x5C :: spelled true t)) := by
  induction t with
  | nil => simp [escapeUnits, readEscapes?, spelled]
  | cons p t ih =>
    rw [escapeUnits_cons]
    refine ⟨fun h => ?_, fun h => ?_⟩
    · by_cases hp : p = 0x5C
      · subst hp
        rw [escapeUnits_single (by decide)]
        exact ih.2 h
      · have hread : readEscapes? (escapeUnits [p] ++ escapeUnits t) =
            (readEscapes? (escapeUnits t)).map (p :: ·) := by
          by_cases hsmall : p.val < 0x100
          · rw [escapeUnits_single hsmall]
            exact readEscapes?_cons hp _
          · exact readEscapes?_escape (Nat.not_lt.1 hsmall) _
        rw [hread, ih.1 h.tail]
        simp [spelled, hp]
    · obtain ⟨⟨hu, hU⟩, hrest⟩ : (p ≠ 0x75 ∧ p ≠ 0x55) ∧ Unescaped (p :: t) :=
        (isChain_cons_cons.1 h).imp_left fun hp => hp rfl
      by_cases hsmall : p.val < 0x100
      · rw [escapeUnits_single hsmall, singleton_append, readEscapes?_pair hu hU, ih.1 hrest.tail]
        simp [spelled, Nat.not_le.2 hsmall]
      · -- The backslash takes that of the escape with it.
        have hlarge := Nat.not_lt.1 hsmall
        obtain ⟨-, units, hunits, -, hplain⟩ := exists_escapeUnits_eq hlarge
        rw [hunits, cons_append, readEscapes?_pair (by decide) (by decide),
          readEscapes?_append hplain, ih.1 hrest.tail]
        simp [spelled, hlarge, hunits]

theorem unescape?_of_unescaped {t : Text} (h : Unescaped t) : unescape? t = some (spelled false t) :=
  (readEscapes?_escapeUnits t).1 h

/-- No backslash stands before a `u` or `U`, or before a code point above `FF`. -/
def Verbatim (t : Text) : Prop :=
  t.IsChain fun p q => p = 0x5C → q ≠ 0x75 ∧ q ≠ 0x55 ∧ q.val < 0x100

instance (t : Text) : Decidable (Verbatim t) := inferInstanceAs (Decidable (IsChain _ t))

theorem Verbatim.spelled_eq {t : Text} (h : Verbatim t) {odd : Bool}
    (hodd : odd → Verbatim (0x5C :: t)) : spelled odd t = t := by
  induction t generalizing odd with
  | nil => rfl
  | cons p t ih =>
    have hkept : (odd && decide (0x100 ≤ p.val)) = false := by
      cases odd with
      | false => rfl
      | true => simpa using ((isChain_cons_cons.1 (hodd rfl)).1 rfl).2.2
    have hrest : spelled (p = 0x5C && !odd) t = t := by
      refine ih h.tail fun hnext => ?_
      obtain rfl : p = 0x5C := by simpa using (Bool.and_eq_true_iff.1 hnext).1
      exact h
    rw [spelled, hkept, hrest]
    rfl

/-- **A text without escapes denotes itself.** -/
theorem unescape?_of_verbatim {t : Text} (h : Verbatim t) : unescape? t = some t := by
  have hplain : Unescaped t := h.imp fun p q hpq hp => ⟨(hpq hp).1, (hpq hp).2.1⟩
  rw [unescape?_of_unescaped hplain, h.spelled_eq fun hodd => absurd hodd Bool.false_ne_true]

end Locale

end AddonBuilder
