import AddonBuilder.Proofs.Files.Names
import AddonBuilder.Proofs.Outcome
import AddonBuilder.Text.Integer

/-!
# Searching, replacing and joining

A pattern occurs in a text if it is a part of it (`occurs_iff`).
-/

namespace AddonBuilder.Text

open List

section Lists

variable {α : Type} [DecidableEq α] {first : α} {pattern more by_ l rest : List α}

@[simp] theorem dropStart?_append (start rest : List α) :
    dropStart? start (start ++ rest) = some rest :=
  dropStart?_eq_some_iff.2 rfl

theorem dropStart?_cons_of_ne {c d : α} (h : c ≠ d) (start l : List α) :
    dropStart? (c :: start) (d :: l) = none := by
  rw [dropStart?, if_neg h]

theorem cut?_of_not_mem (h : first ∉ l) (rest : List α) :
    cut? (first :: more) (l ++ (first :: more ++ rest)) = some (l, rest) := by
  induction l with
  | nil => rw [nil_append, cons_append, cut?, ← cons_append, dropStart?_append]
  | cons c l ih =>
    obtain ⟨hc, hl⟩ := not_or.1 (fun hor => h (mem_cons.2 hor))
    rw [cons_append, cut?, dropStart?_cons_of_ne hc, ih hl]
    rfl

/-- Occurring is being an infix. -/
theorem occurs_iff : occurs pattern l ↔ pattern <:+: l := by
  unfold occurs
  induction l with
  | nil => simp [cut?]
  | cons c l ih =>
    rw [cut?, infix_cons_iff, ← ih]
    cases hstart : dropStart? pattern (c :: l) with
    | some rest =>
      have hstarts : pattern <+: c :: l := ⟨rest, (dropStart?_eq_some_iff.1 hstart).symm⟩
      simp [hstarts]
    | none =>
      have hstarts : ¬ pattern <+: c :: l := by
        rintro ⟨rest, hrest⟩
        rw [dropStart?_eq_some_iff.2 hrest.symm] at hstart
        cases hstart
      simp [hstarts]

/-- The bound on the length of the text plays no part. -/
theorem go_eq {n m : Nat} (hn : l.length ≤ n) (hm : l.length ≤ m) :
    replace.go by_ first more n l = replace.go by_ first more m l := by
  induction n generalizing m l with
  | zero =>
    obtain rfl := length_eq_zero_iff.1 (Nat.le_zero.1 hn)
    cases m <;> rfl
  | succ n ih =>
    cases l with
    | nil => cases m <;> rfl
    | cons c l =>
      obtain ⟨m, rfl⟩ := Nat.exists_eq_add_one_of_ne_zero (Nat.ne_zero_of_lt hm)
      rw [length_cons] at hn hm
      rw [replace.go, replace.go]
      split
      · rename_i rest hrest
        have hlen := congrArg length (dropStart?_eq_some_iff.1 hrest)
        simp only [length_cons, length_append] at hlen
        rw [ih (m := m) (by omega) (by omega)]
      · rw [ih (m := m) (by omega) (by omega)]

/-- A pattern at the start is replaced. -/
theorem replace_append_pattern (rest : List α) :
    replace (first :: more) by_ (first :: more ++ rest) =
      by_ ++ replace (first :: more) by_ rest := by
  show replace.go by_ first more (more ++ rest).length.succ (first :: (more ++ rest)) =
    by_ ++ replace.go by_ first more rest.length rest
  rw [replace.go, ← cons_append, dropStart?_append]
  exact congrArg (by_ ++ ·) (go_eq (by simp) (Nat.le_refl _))

/-- Nothing is replaced where the pattern cannot start. -/
theorem replace_append_of_not_mem (h : first ∉ l) (rest : List α) :
    replace (first :: more) by_ (l ++ rest) = l ++ replace (first :: more) by_ rest := by
  induction l with
  | nil => rfl
  | cons c l ih =>
    obtain ⟨hc, hl⟩ := not_or.1 (fun hor => h (mem_cons.2 hor))
    refine Eq.trans ?_ (congrArg (c :: ·) (ih hl))
    show replace.go by_ first more (l ++ rest).length.succ (c :: (l ++ rest)) = _
    rw [replace.go, dropStart?_cons_of_ne hc]
    rfl

theorem replace_of_not_mem (h : first ∉ l) : replace (first :: more) by_ l = l := by
  have hall : replace (first :: more) by_ (l ++ []) = l ++ replace (first :: more) by_ [] :=
    replace_append_of_not_mem h []
  have hnil : replace (first :: more) by_ [] = [] := rfl
  rwa [hnil, append_nil] at hall

end Lists

theorem splitString_joinStrings {c : Char} {l : List String} (hl : l ≠ [])
    (h : ∀ s ∈ l, c ∉ s.toList) : splitString c (joinStrings (String.ofList [c]) l) = l := by
  rw [splitString, pieces_eq_splitOnP, joinStrings, String.toList_intercalate, String.toList_ofList,
    ← splitOn_eq_splitOnP, splitOn_intercalate, map_map]
  · have hmap : String.ofList ∘ String.toList = id := by
      funext s
      simp
    rw [hmap, map_id]
  · intro s hs
    obtain ⟨s', hs', rfl⟩ := mem_map.1 hs
    exact h s' hs'
  · simpa using hl

theorem toList_joinStrings_cons (separator s : String) (l : List String) :
    (joinStrings separator (s :: l)).toList =
      s.toList ++ l.flatMap fun t => separator.toList ++ t.toList := by
  rw [joinStrings, String.toList_intercalate]
  induction l generalizing s with
  | nil => simp
  | cons t l ih =>
    rw [map_cons, map_cons, intercalate_cons_cons, ← map_cons, ih, flatMap_cons]
    simp

theorem trim_of_not {α : Type} {p : α → Bool} {l : List α} (h : ∀ c ∈ l, p c = false) :
    trim p l = l := by
  have hstart : ∀ l : List α, (∀ c ∈ l, p c = false) → l.dropWhile p = l := by
    intro l hl
    cases l with
    | nil => rfl
    | cons c l => rw [dropWhile_cons, hl c mem_cons_self, if_neg (by simp)]
  rw [trim, trimStart, trimEnd, hstart l h, hstart l.reverse fun c hc => h c (mem_reverse.1 hc),
    reverse_reverse]

theorem toNat_of_isDigit {c : Char} (h : c.isDigit) : 0x30 ≤ c.toNat ∧ c.toNat ≤ 0x39 := by
  simp only [Char.isDigit, Bool.and_eq_true, decide_eq_true_eq, ge_iff_le,
    UInt32.le_iff_toNat_le] at h
  exact h

theorem foldlM_digits {digits : List Char} (h : ∀ c ∈ digits, c.isDigit) (m : Nat) :
    (digits.map Char.toNat).foldlM (fun n d => (digitValue? d).bind fun v =>
      if v < 10 then some (n * 10 + v) else none) m = some (Nat.ofDigitChars 10 digits m) := by
  induction digits generalizing m with
  | nil => rfl
  | cons c digits ih =>
    obtain ⟨hlow, hhigh⟩ := toNat_of_isDigit (h c mem_cons_self)
    have hvalue : digitValue? c.toNat = some (c.toNat - 0x30) := by simp [digitValue?, hlow, hhigh]
    rw [map_cons, foldlM_cons, hvalue, Option.bind_some, if_pos (by omega),
      Option.bind_eq_bind, Option.bind_some, ih fun d hd => h d (mem_cons_of_mem _ hd),
      Nat.ofDigitChars_cons, Nat.mul_comm]
    rfl

/-- Digits have no blanks around them, no sign and no base in front. -/
theorem integer?_digits {codes : List Nat} (h : ∀ n ∈ codes, 0x30 ≤ n ∧ n ≤ 0x39) :
    integer? .allScripts 10 codes = (digitsValue? 10 codes).map Int.ofNat := by
  have hblank : ∀ n ∈ codes, isBlank n = false := by
    intro n hn
    have := h n hn
    simp [isBlank, isAsciiBlank]
    omega
  have hfold : codes.mapM DigitSet.allScripts.fold = some codes := by
    refine (mapM_eq_some (g := id) fun n hn => ?_).trans (by rw [map_id])
    have := h n hn
    exact DigitSet.fold_eq _ (hblank n hn) (by omega)
  have htrim : trim isAsciiBlank codes = codes :=
    trim_of_not fun n hn => isAsciiBlank_eq_false (hblank n hn)
  have hsign : splitSign codes = (false, codes) := by
    cases codes with
    | nil => rfl
    | cons d codes =>
      have hd := h d mem_cons_self
      exact splitSign_cons (by omega) (by omega)
  rw [integer?, hfold, Option.bind_eq_bind, Option.bind_some, htrim, hsign]
  dsimp only
  rw [withoutMark_eq (by decide)]
  cases digitsValue? 10 codes <;> rfl

theorem toList_toString (k : Nat) : (toString k).toList = Nat.toDigits 10 k := by simp

theorem isDigit_of_mem_toString {k : Nat} {c : Char} (hc : c ∈ (toString k).toList) : c.isDigit :=
  Nat.isDigit_of_mem_toDigits (by decide) (by decide) (toList_toString k ▸ hc)

theorem integerOfString?_ofList {digits : List Char} (hne : digits ≠ [])
    (h : ∀ c ∈ digits, c.isDigit) :
    integerOfString? (String.ofList digits) = some (Nat.ofDigitChars 10 digits 0 : Int) := by
  rw [integerOfString?, String.toList_ofList, integer?_digits, digitsValue?, if_neg (by simp [hne]),
    foldlM_digits h]
  · rfl
  · intro n hn
    obtain ⟨c, hc, rfl⟩ := mem_map.1 hn
    exact toNat_of_isDigit (h c hc)

end AddonBuilder.Text
