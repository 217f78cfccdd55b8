import AddonBuilder.Version
import Mathlib.Data.List.Induction
import Mathlib.Data.List.TakeWhile
import Mathlib.Data.Nat.Digits.Defs

/-!
# What a part of a version says

A part that is neither empty nor `*` begins with a **numeral**, an optional sign and decimal digits.
Behind it stands a lone `+`, a word, or a word with a second numeral and an extra word.
-/

namespace AddonBuilder.Version

open List Part Option

variable {p : Char → Bool} {l rest n w : List Char} {a : Int} {k : Nat}

/-- The number that decimal digits write, the last digit counting least. -/
def decimal (digits : List Char) : Nat :=
  Nat.ofDigits 10 (digits.reverse.map fun c => c.toNat - '0'.toNat)

/-- A numeral and the integer that it writes. -/
inductive Numeral : List Char → Int → Prop
  | unsigned {digits : List Char} (hne : digits ≠ []) (h : ∀ c ∈ digits, c.isDigit = true) :
      Numeral digits (decimal digits)
  | plus {digits : List Char} (hne : digits ≠ []) (h : ∀ c ∈ digits, c.isDigit = true) :
      Numeral ('+' :: digits) (decimal digits)
  | minus {digits : List Char} (hne : digits ≠ []) (h : ∀ c ∈ digits, c.isDigit = true) :
      Numeral ('-' :: digits) (-(decimal digits : Int))

/-- A text before which a numeral ends. -/
def EndsNumeral (rest : List Char) : Prop := ∀ c ∈ rest.head?, c.isDigit = false

/-- What is not read any more: nothing, or what begins with a line break. -/
def NextLines (rest : List Char) : Prop := ∀ c ∈ rest.head?, c = '\n'

theorem nextLines_nil : NextLines [] := by simp [NextLines]

def WordLetters (w : List Char) : Prop := ∀ c ∈ w, startsNumber c = false ∧ c ≠ '\n'

/-- A part as it is written. -/
inductive Written where
  /-- An empty or missing part. -/
  | nothing
  | any
  /-- A number and a lone `+`. -/
  | next (number : Int)
  | fields (number : Int) (word : Option String) (second : Int) (extra : Option String)

/-- The texts of each part. -/
inductive Spells : List Char → Written → Prop
  | nothing : Spells [] .nothing
  | any : Spells ['*'] .any
  | next {n rest : List Char} {a : Int} (hn : Numeral n a) (hrest : NextLines rest) :
      Spells (n ++ '+' :: rest) (.next a)
  | word {n w rest : List Char} {a : Int} (hn : Numeral n a) (hw : WordLetters w)
      (hrest : NextLines rest) :
      Spells (n ++ (w ++ rest)) (.fields a (word? w) 0 none)
  | second {n w m e rest : List Char} {a c : Int} (hn : Numeral n a) (hw : WordLetters w)
      (hm : Numeral m c) (hends : EndsNumeral (w ++ m)) (he : ∀ c ∈ e, c ≠ '\n')
      (hends' : EndsNumeral e) (hrest : NextLines rest) :
      Spells (n ++ (w ++ (m ++ (e ++ rest)))) (.fields a (some (String.ofList w)) c (word? e))

namespace Written

/-- What is read of a part: its words, and its numbers without their signs. -/
def part : Written → Part
  | nothing => {}
  | any => { number := anyNumber }
  | next a => { number := a.natAbs + 1, word := some "pre" }
  | fields a word c extra => { number := a.natAbs, word, second := c.natAbs, extra }

/-- No number of the part is negative. -/
def Nonnegative : Written → Prop
  | nothing | any => True
  | next a => 0 ≤ a
  | fields a _ c _ => 0 ≤ a ∧ 0 ≤ c

end Written

/-! ### Numerals -/

theorem foldl_digits (digits : List Char) :
    digits.foldl (fun n c => n * 10 + (c.toNat - '0'.toNat)) 0 = decimal digits := by
  induction digits using reverseRecOn with
  | nil => rfl
  | append_singleton digits c ih =>
    rw [foldl_append, ih, decimal, decimal, reverse_append]
    simp only [foldl_cons, foldl_nil, reverse_cons, reverse_nil,
      nil_append, cons_append, map_cons, Nat.ofDigits_cons]
    omega

theorem span_append (h : ∀ c ∈ l, p c) (hrest : ∀ c ∈ rest.head?, p c = false) :
    (l ++ rest).takeWhile p = l ∧ (l ++ rest).dropWhile p = rest := by
  rw [takeWhile_append_of_pos h, dropWhile_append_of_pos h]
  cases rest with
  | nil => simp
  | cons c rest =>
    have hc : p c = false := hrest c rfl
    simp [hc]

theorem head?_dropWhile (l : List Char) : ∀ c ∈ (l.dropWhile p).head?, p c = false := by
  intro c hc
  have hhead := head?_dropWhile_not p l
  rw [mem_def.1 hc] at hhead
  exact hhead

theorem ne_sign_of_isDigit {c : Char} (h : c.isDigit) : c ≠ '+' ∧ c ≠ '-' := by
  refine ⟨?_, ?_⟩
  · rintro rfl
    exact absurd h (by decide)
  · rintro rfl
    exact absurd h (by decide)

theorem takeWhile_line (hl : ∀ c ∈ l, c ≠ '\n') (hrest : NextLines rest) :
    (l ++ rest).takeWhile (· ≠ '\n') = l :=
  (span_append (by simpa using hl) (by simpa [NextLines] using hrest)).1

/-- A numeral is read without its sign, with the rest of its line. -/
theorem Numeral.leading?_append (hn : Numeral n a) (hrest : EndsNumeral rest) :
    leading? (n ++ rest) = some (a.natAbs, rest.takeWhile (· ≠ '\n')) := by
  have hread : ∀ {digits : List Char}, digits ≠ [] → (∀ c ∈ digits, c.isDigit) →
      (number? ((digits ++ rest).takeWhile Char.isDigit)).map (fun k =>
        (k, ((digits ++ rest).dropWhile Char.isDigit).takeWhile (· ≠ '\n'))) =
      some (decimal digits, rest.takeWhile (· ≠ '\n')) := by
    intro digits hne h
    obtain ⟨htake, hdrop⟩ := span_append h hrest
    rw [htake, hdrop, number?, if_neg (by simpa using hne), foldl_digits]
    rfl
  cases hn with
  | unsigned hne h =>
    obtain ⟨d, ds, rfl⟩ := exists_cons_of_ne_nil hne
    obtain ⟨hplus, hminus⟩ := ne_sign_of_isDigit (h d mem_cons_self)
    have := hread hne h
    rw [cons_append] at this ⊢
    simpa [leading?, hplus, hminus] using this
  | plus hne h => simpa [leading?] using hread hne h
  | minus hne h => simpa [leading?] using hread hne h

theorem exists_numeral {after : List Char} (h : leading? l = some (k, after)) :
    ∃ n a rest, l = n ++ rest ∧ Numeral n a ∧ EndsNumeral rest ∧
      after = rest.takeWhile (· ≠ '\n') := by
  have hread : ∀ {t : List Char},
      (number? (t.takeWhile Char.isDigit)).map (fun k =>
        (k, (t.dropWhile Char.isDigit).takeWhile (· ≠ '\n'))) = some (k, after) →
      ∃ digits rest, t = digits ++ rest ∧ digits ≠ [] ∧ (∀ c ∈ digits, c.isDigit) ∧
        EndsNumeral rest ∧ after = rest.takeWhile (· ≠ '\n') := by
    intro t ht
    obtain ⟨m, hm, heq⟩ := map_eq_some_iff.1 ht
    have hne : t.takeWhile Char.isDigit ≠ [] := by
      intro hnil
      rw [hnil] at hm
      cases hm
    exact ⟨_, _, takeWhile_append_dropWhile.symm, hne, fun c hc => mem_takeWhile_imp hc,
      head?_dropWhile t, (Prod.mk.inj heq).2.symm⟩
  unfold leading? at h
  cases l with
  | nil => cases h
  | cons s l =>
    by_cases hsign : s = '+' ∨ s = '-'
    · obtain ⟨digits, rest, rfl, hne, hdigits, hends, hafter⟩ :=
        hread (t := l) (by simpa [hsign] using h)
      rcases hsign with rfl | rfl
      · exact ⟨_, _, rest, rfl, .plus hne hdigits, hends, hafter⟩
      · exact ⟨_, _, rest, rfl, .minus hne hdigits, hends, hafter⟩
    · obtain ⟨digits, rest, heq, hne, hdigits, hends, hafter⟩ :=
        hread (t := s :: l) (by simpa [hsign] using h)
      exact ⟨_, _, rest, heq, .unsigned hne hdigits, hends, hafter⟩

theorem numeral_of_decimal {digits : List Char} (hne : digits ≠ [])
    (h : digits.all Char.isDigit) (hk : decimal digits = k) : Numeral digits k :=
  hk ▸ .unsigned hne (all_eq_true.1 h)

theorem Numeral.ne_lineBreak (hn : Numeral n a) : ∀ c ∈ n, c ≠ '\n' := by
  have hdigits : ∀ {digits : List Char}, (∀ c ∈ digits, c.isDigit) → ∀ c ∈ digits, c ≠ '\n' := by
    rintro digits h _ hc rfl
    exact absurd (h _ hc) (by decide)
  cases hn with
  | unsigned _ h => exact hdigits h
  | plus _ h | minus _ h => exact forall_mem_cons.2 ⟨by decide, hdigits h⟩

/-! ### Parts -/

theorem Spells.number (hn : Numeral n a) : Spells n (.fields a none 0 none) := by
  have hw : WordLetters [] := forall_mem_nil _
  simpa [word?] using Spells.word hn hw nextLines_nil

theorem Numeral.head (hn : Numeral n a) :
    (∃ c t, n = c :: t ∧ startsNumber c) ∧ ∃ c ∈ n, c.isDigit := by
  cases hn with
  | unsigned hne h =>
    obtain ⟨d, ds, rfl⟩ := exists_cons_of_ne_nil hne
    have hd := h d mem_cons_self
    exact ⟨⟨d, ds, rfl, by simp [startsNumber, hd]⟩, d, mem_cons_self, hd⟩
  | plus hne h | minus hne h =>
    obtain ⟨d, ds, rfl⟩ := exists_cons_of_ne_nil hne
    exact ⟨⟨_, _, rfl, by decide⟩, d, by simp, h d mem_cons_self⟩

/-- What begins with a numeral is neither empty nor `*`. -/
theorem Numeral.parse?_append (hn : Numeral n a) (hrest : EndsNumeral rest) :
    parse? (String.ofList (n ++ rest)) = (let after := rest.takeWhile (· ≠ '\n')
      if after = ['+'] then some { number := a.natAbs + 1, word := some "pre" }
      else if (after.dropWhile (!startsNumber ·)).isEmpty then
        some { number := a.natAbs, word := word? after }
      else (leading? (after.dropWhile (!startsNumber ·))).map fun (second, extra) =>
        { number := a.natAbs
          word := some (String.ofList (after.takeWhile (!startsNumber ·)))
          second := second
          extra := word? extra }) := by
  obtain ⟨⟨c, t, rfl, hc⟩, -⟩ := hn.head
  have hempty : String.ofList (c :: t ++ rest) ≠ "" := by simp
  have hstar : String.ofList (c :: t ++ rest) ≠ "*" := by
    intro h
    have hchars : c :: t ++ rest = ['*'] := by simpa using congrArg String.toList h
    obtain rfl : c = '*' := by simpa using (cons.inj hchars).1
    exact absurd hc (by decide)
  rw [parse?, if_neg hempty, if_neg hstar, String.toList_ofList, hn.leading?_append hrest]
  dsimp only [bind_eq_bind, bind_some]
  split
  · rfl
  split
  · rfl
  · cases leading? _ with
    | none => rfl
    | some r => rfl

theorem EndsNumeral.append (h : EndsNumeral l) (hne : l ≠ []) (rest : List Char) :
    EndsNumeral (l ++ rest) := by
  obtain ⟨c, l, rfl⟩ := exists_cons_of_ne_nil hne
  exact h

theorem EndsNumeral.of_append (h : EndsNumeral (l ++ rest)) : EndsNumeral l := by
  cases l with
  | nil => simp [EndsNumeral]
  | cons c l => exact h

theorem WordLetters.ne_lineBreak (hw : WordLetters w) : ∀ c ∈ w, c ≠ '\n' :=
  fun c hc => (hw c hc).2

theorem WordLetters.endsNumeral (hw : WordLetters w) (hrest : NextLines rest) :
    EndsNumeral (w ++ rest) := by
  intro c hc
  cases w with
  | nil =>
    obtain rfl : c = '\n' := hrest c hc
    decide
  | cons d w =>
    obtain rfl : d = c := by simpa using hc
    have hd := (hw d mem_cons_self).1
    rw [startsNumber, Bool.or_assoc, Bool.or_eq_false_iff] at hd
    exact hd.1

/-- A word goes up to the next character that can begin a number. -/
theorem WordLetters.span (hw : WordLetters w) (hrest : ∀ c ∈ rest.head?, startsNumber c) :
    (w ++ rest).takeWhile (!startsNumber ·) = w ∧ (w ++ rest).dropWhile (!startsNumber ·) = rest :=
  span_append (fun c hc => by simp [(hw c hc).1]) fun c hc => by simp [hrest c hc]

/-- **A part is read as it is spelt**, but for the signs of its numbers. -/
theorem Spells.parse?_eq {w : Written} (h : Spells l w) :
    parse? (String.ofList l) = some w.part := by
  cases h with
  | nothing => rfl
  | any => rfl
  | @next n rest a hn hrest =>
    have hends : EndsNumeral ['+'] := by simp [EndsNumeral]
    have hline := takeWhile_line (l := ['+']) (by simp) hrest
    have hread := hn.parse?_append (hends.append (by simp) rest)
    rw [hline] at hread
    exact hread
  | @word n w rest a hn hw hrest =>
    have hline := takeWhile_line hw.ne_lineBreak hrest
    have hspan : (w ++ []).takeWhile _ = w ∧ (w ++ []).dropWhile _ = [] := hw.span (by simp)
    rw [append_nil] at hspan
    have hplus : w ≠ ['+'] := by
      rintro rfl
      exact absurd (hw '+' mem_cons_self).1 (by decide)
    rw [hn.parse?_append (hw.endsNumeral hrest), hline]
    simp only [if_neg hplus, hspan.2]
    rfl
  | @second n w m e rest a c hn hw hm hends he hends' hrest =>
    obtain ⟨⟨s, t, hst, hs⟩, d, hd, hdigit⟩ := hm.head
    have hends₁ : EndsNumeral (w ++ (m ++ (e ++ rest))) := by
      rw [← append_assoc]
      exact hends.append (by simp [hst]) _
    have hm' : ∀ c ∈ m, c ≠ '\n' := hm.ne_lineBreak
    have hline : (w ++ (m ++ (e ++ rest))).takeWhile (· ≠ '\n') = w ++ (m ++ e) := by
      rw [← append_assoc m, ← append_assoc w]
      refine takeWhile_line (fun c hc => ?_) hrest
      rcases mem_append.1 hc with hc | hc
      · exact hw.ne_lineBreak c hc
      · exact (mem_append.1 hc).elim (hm' c) (he c)
    have hspan : (w ++ (m ++ e)).takeWhile _ = w ∧ (w ++ (m ++ e)).dropWhile _ = m ++ e :=
      hw.span (by simp [hst, hs])
    have hplus : w ++ (m ++ e) ≠ ['+'] := by
      intro h
      have hmem : d ∈ w ++ (m ++ e) := by simp [hd]
      rw [h, mem_singleton] at hmem
      exact (ne_sign_of_isDigit hdigit).1 hmem
    have hread : leading? (m ++ e) = some (c.natAbs, e) := by
      rw [hm.leading?_append hends']
      simpa using takeWhile_line he nextLines_nil
    rw [hn.parse?_append hends₁, hline]
    simp only [if_neg hplus, hspan.1, hspan.2, hread]
    rw [if_neg (by simp [hst])]
    rfl

theorem line_append (l : List Char) :
    ∃ rest, l = l.takeWhile (· ≠ '\n') ++ rest ∧ NextLines rest ∧
      ∀ c ∈ l.takeWhile (· ≠ '\n'), c ≠ '\n' := by
  refine ⟨l.dropWhile (· ≠ '\n'), takeWhile_append_dropWhile.symm, fun c hc => ?_,
    fun c hc => by simpa using mem_takeWhile_imp hc⟩
  simpa using head?_dropWhile l c hc

/-- **What is read as a part spells one.** -/
theorem exists_spells {s : String} {p : Part} (h : parse? s = some p) : ∃ w, Spells s.toList w := by
  by_cases hempty : s = ""
  · subst hempty
    exact ⟨_, .nothing⟩
  by_cases hstar : s = "*"
  · subst hstar
    exact ⟨_, .any⟩
  rw [parse?, if_neg hempty, if_neg hstar, bind_eq_bind, bind_eq_some_iff] at h
  obtain ⟨⟨k, after⟩, hleading, h⟩ := h
  obtain ⟨n, a, tail, hs, hn, hends, rfl⟩ := exists_numeral hleading
  obtain ⟨rest, htail, hrest, hline⟩ := line_append tail
  generalize tail.takeWhile (· ≠ '\n') = after at htail hline h
  subst htail
  rw [hs]
  by_cases hplus : after = ['+']
  · subst hplus
    exact ⟨_, .next hn hrest⟩
  have hword : ∀ c ∈ after.takeWhile (!startsNumber ·),
      startsNumber c = false ∧ c ≠ '\n' := fun c hc =>
    ⟨by simpa using mem_takeWhile_imp hc, hline c (takeWhile_subset _ hc)⟩
  have hafter := takeWhile_append_dropWhile (p := (!startsNumber ·)) (l := after)
  by_cases hnumber : after.dropWhile (!startsNumber ·) = []
  · rw [hnumber, append_nil] at hafter
    rw [hafter] at hword
    exact ⟨_, .word hn hword hrest⟩
  -- Behind the word stands something that can begin a number, so a number has been read there.
  simp only [if_neg hplus, List.isEmpty_iff, if_neg hnumber, bind_eq_some_iff] at h
  obtain ⟨⟨k', extra⟩, hleading', -⟩ := h
  obtain ⟨m, c, e, hm', hm, hends', -⟩ := exists_numeral hleading'
  rw [hm'] at hafter
  have hmem : ∀ c ∈ e, c ∈ after := by
    intro c hc
    rw [← hafter]
    simp [hc]
  rw [← hafter, append_assoc, append_assoc] at hends ⊢
  rw [← append_assoc] at hends
  exact ⟨_, .second hn hword hm hends.of_append (fun c hc => hline c (hmem c hc)) hends' hrest⟩

end AddonBuilder.Version
