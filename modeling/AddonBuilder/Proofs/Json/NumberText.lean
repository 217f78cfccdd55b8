import AddonBuilder.Proofs.Json.Digits
import AddonBuilder.Proofs.Number.Closest
import Mathlib.Data.Nat.Digits.Defs

/-!
# Finite numbers as text

A finite number is written as its shortest decimal, positional or with an exponent.
-/

namespace AddonBuilder

def Decimal.value (d : Decimal) : ℚ := d.digits * 10 ^ d.exponent

namespace Json

namespace Lexeme

def minus (negative : Bool) : Text := if negative then [0x2D] else []

theorem sign_minus (negative : Bool) {w : Text} (hw : Whole w) (rest : Text) :
    sign (minus negative ++ (w ++ rest)) = (negative, w ++ rest) := by
  cases negative with
  | false => exact hw.sign rest
  | true => rfl

theorem Whole.isDigit {w : Text} (hw : Whole w) : ∀ c ∈ w, Lexeme.isDigit c := by
  intro c hc
  cases hw with
  | zero =>
    rw [List.mem_singleton.1 hc]
    decide
  | digits hd _ hds =>
    rcases List.mem_cons.1 hc with rfl | hc
    · exact hd
    · exact hds c hc

/-- The digits of a fraction, and how they are written. -/
inductive FractionOf : Text → Text → Prop
  | missing : FractionOf [] []
  | point {ds : Text} (h : Digits ds) : FractionOf ds (0x2E :: ds)

/-- The value of an exponent, and how it is written. -/
inductive ExponentOf : Int → Text → Prop
  | missing : ExponentOf 0 []
  | unsigned {c : CodePoint} {ds : Text} (hc : c = 0x65 ∨ c = 0x45) (h : Digits ds) :
      ExponentOf (natural ds) (c :: ds)
  | signed (negative : Bool) {c : CodePoint} {ds : Text} (hc : c = 0x65 ∨ c = 0x45)
      (h : Digits ds) : ExponentOf (if negative then -natural ds else natural ds)
        (c :: (if negative then 0x2D else 0x2B) :: ds)

theorem ExponentOf.exponent {k : Int} {p : Text} (h : ExponentOf k p) : Exponent p := by
  cases h with
  | missing => exact .missing
  | unsigned hc h => exact .unsigned hc h
  | signed negative hc h => exact .signed hc (by cases negative <;> simp) h

theorem ExponentOf.toInt_eq {k : Int} {c : CodePoint} {after : Text}
    (h : ExponentOf k (c :: after)) : isDigit c = false ∧ c ≠ 0x2E ∧ toInt after = k := by
  have hletter : ∀ {c : CodePoint}, c = 0x65 ∨ c = 0x45 → isDigit c = false ∧ c ≠ 0x2E := by
    intro c hc
    rcases hc with rfl | rfl <;> decide
  cases h with
  | unsigned hc h =>
    obtain ⟨d, ds, rfl⟩ := List.exists_cons_of_ne_nil h.1
    refine ⟨(hletter hc).1, (hletter hc).2, ?_⟩
    rw [toInt, sign_of_isDigit (h.2 d List.mem_cons_self)]
    rfl
  | signed negative hc h => exact ⟨(hletter hc).1, (hletter hc).2, by cases negative <;> rfl⟩

/-- Digits denote a number in base ten. -/
theorem natural_eq_ofDigits (ds : Text) :
    natural ds = Nat.ofDigits 10 (ds.reverse.map fun d => d.val - 0x30) := by
  induction ds with
  | nil => rfl
  | cons d ds ih =>
    rw [← List.singleton_append, natural_append, ih, List.reverse_append, List.map_append,
      Nat.ofDigits_append, List.length_map, List.length_reverse, Nat.add_comm, Nat.mul_comm]
    simp [natural]

theorem toBinary64_parts (negative : Bool) {w ds f p : Text} {k : Int} (hw : Whole w)
    (hf : FractionOf ds f) (hp : ExponentOf k p) :
    toBinary64 (minus negative ++ (w ++ (f ++ p))) =
      Binary64.ofDecimal negative (natural (w ++ ds)) (k - ds.length) := by
  have htake : (w ++ (f ++ p)).takeWhile isDigit = w ++ (f ++ p).takeWhile isDigit :=
    List.takeWhile_append_of_pos hw.isDigit
  have hdrop : (w ++ (f ++ p)).dropWhile isDigit = (f ++ p).dropWhile isDigit :=
    List.dropWhile_append_of_pos hw.isDigit
  have hpoint : isDigit 0x2E = false := by decide
  unfold toBinary64
  rw [sign_minus negative hw]
  dsimp only
  rw [htake, hdrop]
  cases hf with
  | missing =>
    cases p with
    | nil =>
      cases hp
      simp
    | cons c after =>
      obtain ⟨hletter, hpoint', hvalue⟩ := hp.toInt_eq
      simp [hletter, hpoint', hvalue]
  | point h =>
    have htake' : (ds ++ p).takeWhile isDigit = ds ++ p.takeWhile isDigit :=
      List.takeWhile_append_of_pos h.2
    have hdrop' : (ds ++ p).dropWhile isDigit = p.dropWhile isDigit :=
      List.dropWhile_append_of_pos h.2
    simp only [List.cons_append, List.takeWhile_cons, List.dropWhile_cons, hpoint,
      Bool.false_eq_true, if_false, if_true, List.append_nil, htake', hdrop']
    cases p with
    | nil =>
      cases hp
      simp only [List.takeWhile_nil, List.dropWhile_nil, List.append_nil]
    | cons c after =>
      obtain ⟨hletter, -, hvalue⟩ := hp.toInt_eq
      simp only [List.takeWhile_cons, List.dropWhile_cons, hletter, hvalue, Bool.false_eq_true,
        if_false, List.append_nil]

/-- A number without a sign that is written with a fraction or an exponent and denotes the decimal
number `q`. -/
structure Denotes (t : Text) (q : ℚ) : Prop where
  parts : ∃ w f p, t = w ++ (f ++ p) ∧ Whole w ∧ Fraction f ∧ Exponent p ∧ f ++ p ≠ []
  value : ∃ (n : Nat) (k : Int), (n : ℚ) * 10 ^ k = q ∧
    ∀ negative, toBinary64 (minus negative ++ t) = Binary64.ofDecimal negative n k

theorem denotes_parts {w ds f p : Text} {k : Int} (hw : Whole w) (hf : FractionOf ds f)
    (hp : ExponentOf k p) (hne : f ++ p ≠ []) :
    Denotes (w ++ (f ++ p)) (natural (w ++ ds) * 10 ^ (k - ds.length)) where
  parts := by
    refine ⟨w, f, p, rfl, hw, ?_, ?_, hne⟩
    · cases hf with
      | missing => exact .missing
      | point h => exact .point h
    · exact hp.exponent
  value := ⟨_, _, rfl, fun negative => toBinary64_parts negative hw hf hp⟩

def zeros (k : Nat) : Text := List.replicate k 0x30

theorem isDigit_of_mem_zeros {k : Nat} {c : CodePoint} (hc : c ∈ zeros k) : isDigit c := by
  rw [List.eq_of_mem_replicate hc]
  decide

theorem ofString_toString (n : Nat) : Text.ofString (toString n) = decimal n := by
  simp [Text.ofString, decimal]

theorem length_toString (n : Nat) : (toString n).length = (decimal n).length := by
  simp [decimal, ← String.length_toList]

theorem ofString_zeros (k : Nat) :
    Text.ofString (String.ofList (List.replicate k '0')) = zeros k := by
  simp [Text.ofString, zeros]
  exact .inr rfl

theorem ofString_take (n k : Nat) :
    Text.ofString (String.ofList ((toString n).toList.take k)) = (decimal n).take k := by
  simp [Text.ofString, decimal]

theorem ofString_drop (n k : Nat) :
    Text.ofString (String.ofList ((toString n).toList.drop k)) = (decimal n).drop k := by
  simp [Text.ofString, decimal]

theorem ofString_positional (d : Decimal) :
    Text.ofString (Binary64.positional d) =
      match d.exponent with
      | .ofNat e => (decimal d.digits ++ zeros e) ++ [0x2E, 0x30]
      | .negSucc e =>
        let n := (decimal d.digits).length
        if e + 1 < n then
          (decimal d.digits).take (n - (e + 1)) ++ 0x2E :: (decimal d.digits).drop (n - (e + 1))
        else [0x30] ++ 0x2E :: (zeros (e + 1 - n) ++ decimal d.digits) := by
  unfold Binary64.positional
  dsimp only
  cases d.exponent with
  | ofNat e =>
    dsimp only
    rw [Text.ofString_append, Text.ofString_append, ofString_toString, ofString_zeros]
    rfl
  | negSucc e =>
    dsimp only
    rw [length_toString]
    split_ifs
    · rw [Text.ofString_append, Text.ofString_append, ofString_take, ofString_drop, List.append_assoc]
      rfl
    · rw [Text.ofString_append, Text.ofString_append, ofString_toString, ofString_zeros]
      rfl

/-- Digits with zeros after them, up to the point. -/
theorem denotes_zeros_after {n e : Nat} (h : 0 < n ∨ e = 0) :
    Denotes ((decimal n ++ zeros e) ++ [0x2E, 0x30]) (n * 10 ^ (Int.ofNat e)) := by
  have hw : Whole (decimal n ++ zeros e) := by
    rcases h with hn | rfl
    · exact whole_append hn fun c hc => isDigit_of_mem_zeros hc
    · simpa [zeros] using whole_decimal n
  have hzero : Digits [0x30] := ⟨by simp, by simp [isDigit]⟩
  have h := denotes_parts hw (.point hzero) .missing (by simp)
  have hvalue : (natural (decimal n ++ zeros e ++ [0x30]) : ℚ) * 10 ^ (0 - 1 : Int) =
      n * 10 ^ (Int.ofNat e) := by
    rw [natural_append, natural_append, natural_decimal, zeros, natural_zeros]
    simp [natural]
  rw [← hvalue]
  simpa using h

theorem denotes_point_among {n e : Nat} (hn : 0 < n) (hlen : e + 1 < (decimal n).length) :
    Denotes ((decimal n).take ((decimal n).length - (e + 1)) ++
      0x2E :: (decimal n).drop ((decimal n).length - (e + 1))) (n * 10 ^ (Int.negSucc e)) := by
  generalize hk : (decimal n).length - (e + 1) = k
  have hds : Digits ((decimal n).drop k) := by
    refine ⟨?_, fun c hc => isDigit_of_mem_decimal (List.mem_of_mem_drop hc)⟩
    rw [ne_eq, List.drop_eq_nil_iff]
    omega
  have h := denotes_parts (whole_take hn (k := k) (by omega)) (.point hds) .missing (by simp)
  have hplaces : (0 : Int) - ((decimal n).drop k).length = .negSucc e := by
    rw [List.length_drop]
    omega
  rw [List.take_append_drop, natural_decimal, hplaces] at h
  simpa using h

/-- Digits after the point, with zeros between. -/
theorem denotes_zeros_before {n e : Nat} (hlen : (decimal n).length ≤ e + 1) :
    Denotes ([0x30] ++ 0x2E :: (zeros (e + 1 - (decimal n).length) ++ decimal n))
      (n * 10 ^ (Int.negSucc e)) := by
  generalize hk : e + 1 - (decimal n).length = k
  have hds : Digits (zeros k ++ decimal n) := by
    refine ⟨by simp [decimal_ne_nil], fun c hc => ?_⟩
    rcases List.mem_append.1 hc with hc | hc
    · exact isDigit_of_mem_zeros hc
    · exact isDigit_of_mem_decimal hc
  have h := denotes_parts .zero (.point hds) .missing (by simp)
  have hvalue : natural ([0x30] ++ (zeros k ++ decimal n)) = n := by
    rw [natural_append, natural_append, natural_decimal, zeros, natural_zeros]
    simp [natural]
  have hplaces : (0 : Int) - (zeros k ++ decimal n).length = .negSucc e := by
    rw [List.length_append, zeros, List.length_replicate]
    omega
  rw [hvalue, hplaces] at h
  simpa using h

/-- Positional notation means the decimal it is made from. -/
theorem positional_denotes {d : Decimal} (hd : 0 < d.digits ∨ d.exponent = 0) :
    Denotes (Text.ofString (Binary64.positional d)) d.value := by
  rw [ofString_positional, Decimal.value]
  rcases hexponent : d.exponent with e | e
  · rw [hexponent, Int.ofNat_eq_natCast, Int.natCast_eq_zero] at hd
    exact denotes_zeros_after hd
  · dsimp only
    split_ifs with hlen
    · exact denotes_point_among (by omega) hlen
    · exact denotes_zeros_before (by omega)

def exponentText (width : Nat) (place : Int) : Text :=
  (if place < 0 then 0x2D else 0x2B) ::
    (zeros (width - (decimal place.natAbs).length) ++ decimal place.natAbs)

theorem exponentOf_exponentText (width : Nat) (place : Int) :
    ExponentOf place (0x65 :: exponentText width place) := by
  have hvalue : natural (zeros (width - (decimal place.natAbs).length) ++ decimal place.natAbs) =
      place.natAbs := by
    rw [natural_append, natural_decimal, zeros, natural_zeros, Nat.zero_mul, Nat.zero_add]
  have hdigits : Digits (zeros (width - (decimal place.natAbs).length) ++
      decimal place.natAbs) := by
    refine ⟨by simp [decimal_ne_nil], fun c hc => ?_⟩
    rcases List.mem_append.1 hc with hc | hc
    · exact isDigit_of_mem_zeros hc
    · exact isDigit_of_mem_decimal hc
  have hplace : (if place < 0 then -(place.natAbs : Int) else place.natAbs) = place := by
    split_ifs <;> omega
  have hsigned := ExponentOf.signed (decide (place < 0)) (c := 0x65) (.inl rfl) hdigits
  simpa only [exponentText, decide_eq_true_eq, hvalue, hplace] using hsigned

theorem ofString_scientific (width : Nat) (d : Decimal) :
    Text.ofString (Binary64.scientific width d) =
      (decimal d.digits).take 1 ++
        ((if (decimal d.digits).drop 1 = [] then [] else 0x2E :: (decimal d.digits).drop 1) ++
          0x65 :: exponentText width (d.exponent + (decimal d.digits).length - 1)) := by
  have hfraction : ∀ tail : String, Text.ofString (if tail.isEmpty then "" else "." ++ tail) =
      if Text.ofString tail = [] then [] else 0x2E :: Text.ofString tail := by
    intro tail
    have hempty : tail.isEmpty ↔ Text.ofString tail = [] := by
      simp [Text.ofString]
    by_cases htail : Text.ofString tail = []
    · rw [if_pos (hempty.2 htail), if_pos htail]
      rfl
    · rw [if_neg (fun h => htail (hempty.1 h)), if_neg htail, Text.ofString_append]
      rfl
  have hsign : ∀ place : Int, Text.ofString (if place < 0 then "-" else "+") =
      [if place < 0 then 0x2D else 0x2B] := by
    intro place
    split_ifs <;> rfl
  have hletter : Text.ofString "e" = [0x65] := rfl
  unfold Binary64.scientific
  dsimp only
  rw [length_toString, length_toString, Text.ofString_append, Text.ofString_append, Text.ofString_append,
    Text.ofString_append, Text.ofString_append, ofString_take, ofString_zeros, ofString_toString, hsign,
    hfraction, ofString_drop, hletter]
  simp only [exponentText, List.append_assoc, List.cons_append, List.nil_append]

/-- Scientific notation means the decimal it is made from. -/
theorem scientific_denotes (width : Nat) {d : Decimal} (hd : 0 < d.digits) :
    Denotes (Text.ofString (Binary64.scientific width d)) d.value := by
  rw [ofString_scientific, Decimal.value]
  have hf : FractionOf ((decimal d.digits).drop 1)
      (if (decimal d.digits).drop 1 = [] then [] else 0x2E :: (decimal d.digits).drop 1) := by
    split_ifs with hempty
    · rw [hempty]
      exact .missing
    · exact .point ⟨hempty, fun c hc => isDigit_of_mem_decimal (List.mem_of_mem_drop hc)⟩
  have h := denotes_parts (whole_take hd Nat.one_pos) hf
    (exponentOf_exponentText width (d.exponent + (decimal d.digits).length - 1)) (by simp)
  have hlen := List.length_pos_iff.2 (decimal_ne_nil d.digits)
  have hplaces : d.exponent + (decimal d.digits).length - 1 - ((decimal d.digits).drop 1).length =
      d.exponent := by
    rw [List.length_drop]
    omega
  rwa [List.take_append_drop, natural_decimal, hplaces] at h

/-- **What numbers are read as.**  A number without fraction and exponent is read as the integer with
its sign and digits.  One with either is read as a double closest to the decimal number that its
digits give with the point moved by the exponent. -/
theorem reading_number {n f p : Text} (hn : Integer n) (hf : Fraction f) (hp : Exponent p) :
    ∃ negative w ds k, n = minus negative ++ w ∧ Whole w ∧ FractionOf ds f ∧ ExponentOf k p ∧
      Value.reading.integer n = .int (if negative then -natural w else natural w) ∧
      ∃ x, Value.reading.real (n ++ (f ++ p)) = .float x ∧
        x.Closest (Binary64.signed negative (natural (w ++ ds) * 10 ^ (k - ds.length))) := by
  obtain ⟨negative, w, rfl, hw⟩ : ∃ negative w, n = minus negative ++ w ∧ Whole w := by
    cases hn with
    | positive h => exact ⟨false, _, rfl, h⟩
    | negative h => exact ⟨true, _, rfl, h⟩
  obtain ⟨ds, hds⟩ : ∃ ds, FractionOf ds f := by
    cases hf with
    | missing => exact ⟨_, .missing⟩
    | point h => exact ⟨_, .point h⟩
  obtain ⟨k, hk⟩ : ∃ k, ExponentOf k p := by
    cases hp with
    | missing => exact ⟨_, .missing⟩
    | unsigned he h => exact ⟨_, .unsigned he h⟩
    | signed he hs h =>
      rcases hs with rfl | rfl
      · exact ⟨_, .signed false he h⟩
      · exact ⟨_, .signed true he h⟩
  have hinteger : toInt (minus negative ++ w) =
      if negative then -(natural w : Int) else natural w := by
    have hsign := sign_minus negative hw []
    rw [List.append_nil] at hsign
    rw [toInt, hsign]
  refine ⟨negative, w, ds, k, rfl, hw, hds, hk, congrArg Value.int hinteger, _, rfl, ?_⟩
  rw [List.append_assoc, toBinary64_parts negative hw hds hk]
  exact Binary64.ofDecimal_closest negative _ _

end Lexeme

open Lexeme Binary64

theorem toString_denotes {x : Binary64} {negative : Bool} {m : Nat} {e : Int}
    (hx : x.view = .finite negative m e) {d : Decimal}
    (hd : d = if m = 0 then ⟨0, 0⟩ else shortest x negative m e) (hdigits : m ≠ 0 → 0 < d.digits) :
    ∃ t, Text.ofString (toString x) = minus negative ++ t ∧ Denotes t d.value := by
  have hsign : Text.ofString (if negative then "-" else "") = minus negative := by
    cases negative <;> rfl
  change ∃ t, Text.ofString (render plainLayout x) = _ ∧ _
  unfold render
  rw [hx]
  dsimp only
  rw [← hd, Text.ofString_append, hsign]
  refine ⟨_, rfl, ?_⟩
  split_ifs with hplace
  · apply positional_denotes
    grind
  · apply scientific_denotes
    apply hdigits
    intro hm
    rw [if_pos hm] at hd
    rw [hd] at hplace
    exact hplace (by decide)

/-- **A finite number is read back from its text.**  The text is a number with a fraction or an
exponent. -/
theorem toBinary64_toString {x : Binary64} {negative : Bool} {m : Nat} {e : Int}
    (hx : x.view = .finite negative m e) :
    ∃ i f p, Text.ofString (toString x) = i ++ (f ++ p) ∧ Integer i ∧ Fraction f ∧ Exponent p ∧
      f ++ p ≠ [] ∧ toBinary64 (i ++ (f ++ p)) = x := by
  obtain ⟨hpattern, hm⟩ := pattern_of_view hx
  obtain ⟨d, hd⟩ : ∃ d, d = if m = 0 then ⟨0, 0⟩ else shortest x negative m e := ⟨_, rfl⟩
  have hreads : m ≠ 0 → ofDecimal negative d.digits d.exponent = x := by
    intro hne
    rw [if_neg hne, hpattern] at hd
    rw [hpattern, ofDecimal_shortest negative (hm.resolve_left hne) hd]
  have hdigits : m ≠ 0 → 0 < d.digits := by
    intro hne
    refine Nat.pos_of_ne_zero fun hzero => hne ?_
    have hview : ∀ b, (zero b).view = .finite b 0 (-1074) := by decide
    have hzero' := hreads hne
    rw [hzero, ofDecimal, if_pos rfl] at hzero'
    rw [← hzero', hview] at hx
    injection hx with _ hm
    exact hm.symm
  obtain ⟨t, htext, hdenotes⟩ := toString_denotes hx hd hdigits
  obtain ⟨w, f, p, rfl, hw, hf, hp, hne⟩ := hdenotes.parts
  obtain ⟨n, k, hvalue, hread⟩ := hdenotes.value
  refine ⟨minus negative ++ w, f, p, by rw [htext, List.append_assoc], ?_, hf, hp, hne, ?_⟩
  · cases negative with
    | false => exact .positive hw
    | true => exact .negative hw
  · rw [List.append_assoc, hread, ofDecimal_congr negative hvalue]
    by_cases hzero : m = 0
    · rw [hd, if_pos hzero, hpattern, hzero]
      rfl
    · exact hreads hzero

end Json

end AddonBuilder
