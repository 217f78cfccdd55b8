import AddonBuilder.Json.Encoding
import AddonBuilder.Proofs.Json.StringBody

/-!
# A written string is read back

Each code point of a text is written as itself or as an escape that names it; above `FFFF` it
becomes a pair of surrogates, which the scanner joins again.
-/

namespace AddonBuilder.Json

open Text List CodePoint

variable {n d : Nat} {p : CodePoint} {body t : Text}

def hexUnit (d : Nat) : CodePoint := ofChar (Nat.digitChar d)

theorem ofString_hex (hn : n < 0x10000) :
    ofString (hex 4 n) =
      [hexUnit (n / 4096), hexUnit (n / 256 % 16), hexUnit (n / 16 % 16), hexUnit (n % 16)] := by
  have hstep : ∀ m, Nat.toDigits 16 m = if m < 16 then [Nat.digitChar m]
      else Nat.toDigits 16 (m / 16) ++ [Nat.digitChar (m % 16)] :=
    fun m => Nat.toDigits_eq_if (by decide)
  have hdigits : replicate (4 - (Nat.toDigits 16 n).length) '0' ++ Nat.toDigits 16 n =
      [Nat.digitChar (n / 4096), Nat.digitChar (n / 256 % 16), Nat.digitChar (n / 16 % 16),
        Nat.digitChar (n % 16)] := by
    by_cases h₁ : n < 16
    · have h : n / 4096 = 0 ∧ n / 256 % 16 = 0 ∧ n / 16 % 16 = 0 ∧ n % 16 = n := by omega
      simp [hstep n, h₁, h, replicate_succ]
    by_cases h₂ : n / 16 < 16
    · have h : n / 4096 = 0 ∧ n / 256 % 16 = 0 ∧ n / 16 % 16 = n / 16 := by omega
      simp [hstep n, hstep (n / 16), h₁, h₂, h, replicate_succ]
    by_cases h₃ : n / 16 / 16 < 16
    · have h : n / 4096 = 0 ∧ n / 256 % 16 = n / 16 / 16 := by omega
      simp [hstep n, hstep (n / 16), hstep (n / 16 / 16), h₁, h₂, h₃, h]
    · have h₄ : n / 16 / 16 / 16 < 16 := by omega
      have h : n / 4096 = n / 16 / 16 / 16 ∧ n / 256 = n / 16 / 16 := by omega
      simp [hstep n, hstep (n / 16), hstep (n / 16 / 16), hstep (n / 16 / 16 / 16), h₁, h₂, h₃,
        h₄, h]
  simp only [ofString, hex, String.toList_ofList, hdigits, map_cons, map_nil, hexUnit]

theorem hexValue?_hexUnit : ∀ d < 16, hexValue? (hexUnit d) = some d := by decide

theorem numericEscape_eq (hn : n < 0x10000) :
    numericEscape n = [0x5C, 0x75, hexUnit (n / 4096), hexUnit (n / 256 % 16),
      hexUnit (n / 16 % 16), hexUnit (n % 16)] := by
  unfold numericEscape
  rw [ofString_hex hn]
  rfl

theorem value?_number (numerals : Numerals) (hn : n < 0x10000) :
    numerals.value? (hexUnit (n / 4096)) (hexUnit (n / 256 % 16)) (hexUnit (n / 16 % 16))
      (hexUnit (n % 16)) = some (n : Int) := by
  have hdigits : ((n / 4096 * 16 + n / 256 % 16) * 16 + n / 16 % 16) * 16 + n % 16 = n := by omega
  refine numerals.hex ?_
  simp only [hexQuad?, hexValue?_hexUnit (n / 4096) (by omega),
    hexValue?_hexUnit (n / 256 % 16) (by omega), hexValue?_hexUnit (n / 16 % 16) (by omega),
    hexValue?_hexUnit (n % 16) (by omega), Option.bind_eq_bind, Option.bind_some, hdigits]
  rfl

theorem pointOfInt?_val (p : CodePoint) : pointOfInt? (p.val : Int) = some p := by
  have hp := p.isLt
  simp [pointOfInt?, ofNat?, hp]

/-- An escape by number names its code point, unless that starts a pair. -/
theorem escape_number (mode : Mode) (hp : p.val < 0x10000)
    (halone : p.isHighSurrogate = false) : Escape mode (numericEscape p.val) p := by
  rw [numericEscape_eq hp]
  refine .number (value?_number mode.numerals hp) ?_ (pointOfInt?_val p)
  simp [isHighSurrogate] at halone
  omega

/-- The surrogates of a code point above `FFFF` join to it again. -/
theorem joinSurrogates_split (hlow : 0x10000 ≤ n) (hn : n < 0x110000) :
    joinSurrogates (0xD800 + (n - 0x10000) / 1024 % 1024)
      ((0xDC00 + (n - 0x10000) % 1024 : Nat) : Int) = n := by
  obtain ⟨m, rfl⟩ : ∃ m, n = m + 0x10000 := ⟨n - 0x10000, by omega⟩
  have hdigit : ((0xDC00 + (m + 0x10000 - 0x10000) % 1024 : Nat) : Int) - 0xDC00 =
      Int.ofNat (m % 1024) := by
    simp only [Int.ofNat_eq_natCast]
    omega
  have hor : (m / 1024) * 1024 ||| m % 1024 = m := by
    have hsum := Nat.two_pow_add_eq_or_of_lt (i := 10) (b := m % 1024) (by omega) (m / 1024)
    rw [show (2 : Nat) ^ 10 = 1024 from rfl, Nat.mul_comm] at hsum
    omega
  have hhigh : 0xD800 + (m + 0x10000 - 0x10000) / 1024 % 1024 - 0xD800 = m / 1024 := by omega
  unfold joinSurrogates
  rw [hdigit, hhigh]
  simp only [bitOr, hor]
  omega

/-- A pair of surrogates names a code point above `FFFF`. -/
theorem escape_pair (mode : Mode) (hp : 0x10000 ≤ p.val) :
    Escape mode
      (numericEscape (0xD800 + (p.val - 0x10000) / 1024 % 1024) ++
        numericEscape (0xDC00 + (p.val - 0x10000) % 1024)) p := by
  have hlt := p.isLt
  have hhigh : 0xD800 + (p.val - 0x10000) / 1024 % 1024 < 0x10000 := by omega
  have hlow : 0xDC00 + (p.val - 0x10000) % 1024 < 0x10000 := by omega
  rw [numericEscape_eq hhigh, numericEscape_eq hlow]
  refine .pair (value?_number mode.numerals hhigh) (by omega) (value?_number mode.numerals hlow) ?_
  rw [Int.toNat_natCast, joinSurrogates_split hp hlt]
  exact pointOfInt?_val p

/-- What every string form escapes, it escapes by the name of that code point. -/
theorem escape_of_commonEscape? (mode : Mode) {e : Text}
    (h : commonEscape? p = some e) : Escape mode e p := by
  unfold commonEscape? at h
  -- Seven code points have a letter of their own.
  iterate 7
    split at h
    · subst p
      obtain rfl := Option.some.inj h
      exact .letter rfl
  split at h
  · rename_i hlow
    obtain rfl := Option.some.inj h
    refine escape_number mode (by omega) ?_
    simp [isHighSurrogate]
    omega
  · cases h

theorem plain_of_commonEscape? (h : commonEscape? p = none) :
    p ≠ 0x22 ∧ p ≠ 0x5C ∧ ¬ p.val < 0x20 := by
  refine ⟨?_, ?_, ?_⟩
  · rintro rfl
    simp [commonEscape?] at h
  · rintro rfl
    simp [commonEscape?] at h
  · intro hlow
    grind [commonEscape?]

/-- Plain units before a body belong to its text.  Units that are characters need no decoding. -/
theorem StringBody.after_run {mode : Mode} (hmode : mode.alphabet = .characters)
    {run : Text} (h : StringBody mode run body t) (before : Text) :
    StringBody mode (run ++ before) body (before.reverse ++ t) := by
  have hchunk : ∀ {run t : Text}, mode.alphabet.chunk? run.reverse = some t → t = run.reverse := by
    intro run t ht
    simpa [hmode, Alphabet.chunk?, eq_comm] using ht
  have hall : ∀ run : Text, mode.alphabet.chunk? (run ++ before).reverse =
      some (before.reverse ++ run.reverse) := by
    intro run
    simp [hmode, Alphabet.chunk?]
  induction h with
  | close ht =>
    obtain rfl := hchunk ht
    exact .close (hall _)
  | escape ht he tail ih =>
    obtain rfl := hchunk ht
    rw [← append_assoc]
    exact .escape (hall _) he tail
  | control hquote hback hlow hstrict ht tail ih =>
    obtain rfl := hchunk ht
    rw [← append_assoc]
    exact .control hquote hback hlow hstrict (hall _) tail
  | plain hquote hback hlow tail ih => exact .plain hquote hback hlow ih

/-- The mode for texts in which escapes are read in a given way. -/
abbrev Numerals.mode (numerals : Numerals) : Mode := { numerals := numerals }

/-- One code point in front of a body, as itself or escaped. -/
theorem stringBody_point {numerals : Numerals} (h : StringBody numerals.mode [] body t) (e : Text)
    (he : Escape numerals.mode e p ∨ e = [p] ∧ p ≠ 0x22 ∧ p ≠ 0x5C ∧ ¬ p.val < 0x20) :
    StringBody numerals.mode [] (e ++ body) (p :: t) := by
  rcases he with he | ⟨rfl, hquote, hback, hlow⟩
  · exact .escape (t := []) rfl he h
  · exact .plain hquote hback hlow (h.after_run rfl [p])

theorem point_written (asciiOnly : Bool) (hp : asciiOnly → p.isHighSurrogate = false) :
    let e := if asciiOnly then escapePointAscii p else escapePoint p
    Escape {} e p ∨ e = [p] ∧ p ≠ 0x22 ∧ p ≠ 0x5C ∧ ¬ p.val < 0x20 := by
  cases hcommon : commonEscape? p with
  | some e =>
    have he := escape_of_commonEscape? {} hcommon
    left
    cases asciiOnly <;> simpa [escapePoint, escapePointAscii, hcommon] using he
  | none =>
    have hplain := plain_of_commonEscape? hcommon
    cases asciiOnly with
    | false => exact .inr ⟨by simp [escapePoint, hcommon], hplain⟩
    | true =>
      simp only [escapePointAscii, hcommon, if_true]
      by_cases hascii : p.val ≤ 0x7E
      · exact .inr ⟨by simp [hascii], hplain⟩
      by_cases hbmp : p.val < 0x10000
      · simpa [hascii, hbmp] using Or.inl (escape_number {} hbmp (hp rfl))
      · simpa [hascii, hbmp] using Or.inl (escape_pair {} (by omega))

/-- **A text written as a string is scanned back**, if no escape by number starts a pair. -/
theorem stringText_token (asciiOnly : Bool) (ht : asciiOnly → ∀ p ∈ t, p.isHighSurrogate = false) :
    ∃ body, stringText asciiOnly t = 0x22 :: body ∧ StringToken {} body t := by
  refine ⟨_, rfl, stringToken_iff.2 ?_⟩
  induction t with
  | nil => exact .close rfl
  | cons p t ih =>
    have htail := ih fun hascii q hq => ht hascii q (mem_cons_of_mem p hq)
    have hpoint := point_written asciiOnly fun hascii => ht hascii p mem_cons_self
    rw [flatMap_cons, append_assoc]
    cases asciiOnly <;> exact stringBody_point htail _ hpoint

end AddonBuilder.Json
