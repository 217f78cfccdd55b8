import AddonBuilder.Text.Integer
import Mathlib.Algebra.Group.Nat.Defs
import Mathlib.Data.List.Basic

/-!
# What written integers are made of

A written integer is no greater than its number of codes allows (`integer?_lt`), and in ASCII it is
made of digits, signs, marks and white space only (`isShared_of_integer?`).
-/

namespace AddonBuilder.Text

open List Option

/-- Each digit multiplies what was read before it by the base, and adds less than the base. -/
theorem foldlM_digit_lt {base : Nat} {digits : List Nat} {start n : Nat}
    (h : digits.foldlM (fun n d => (digitValue? d).bind fun v =>
      if v < base then some (n * base + v) else none) start = some n) :
    n < (start + 1) * base ^ digits.length := by
  induction digits generalizing start with
  | nil =>
    obtain rfl : start = n := by simpa using h
    simp
  | cons d digits ih =>
    rw [foldlM_cons] at h
    obtain ⟨next, hnext, h⟩ := bind_eq_some_iff.1 h
    obtain ⟨v, -, hnext⟩ := bind_eq_some_iff.1 hnext
    split at hnext
    · rename_i hv
      obtain rfl := some.inj hnext
      have hstep : start * base + v + 1 ≤ (start + 1) * base := by
        rw [Nat.add_mul]
        omega
      calc n < (start * base + v + 1) * base ^ digits.length := ih h
        _ ≤ (start + 1) * base * base ^ digits.length := Nat.mul_le_mul_right _ hstep
        _ = (start + 1) * base ^ (d :: digits).length := by
            rw [length_cons, Nat.pow_succ, Nat.mul_assoc, Nat.mul_comm base]
    · cases hnext

theorem digitsValue?_lt {base : Nat} {digits : List Nat} {n : Nat}
    (h : digitsValue? base digits = some n) : n < base ^ digits.length := by
  unfold digitsValue? at h
  split at h
  · cases h
  · simpa using foldlM_digit_lt h

theorem length_trim_le (p : Nat → Bool) (l : List Nat) : (trim p l).length ≤ l.length := by
  rw [trim, trimEnd, trimStart, length_reverse]
  calc _ ≤ (l.dropWhile p).reverse.length := (dropWhile_suffix p).length_le
    _ = (l.dropWhile p).length := length_reverse
    _ ≤ l.length := (dropWhile_suffix p).length_le

theorem length_of_mapM {α β : Type} {l : List α} {f : α → Option β} {bs : List β}
    (h : l.mapM f = some bs) : bs.length = l.length := by
  induction l generalizing bs with
  | nil =>
    obtain rfl : [] = bs := by simpa using h
    rfl
  | cons a l ih =>
    rw [mapM_cons] at h
    obtain ⟨b, -, h⟩ := bind_eq_some_iff.1 h
    obtain ⟨more, hmore, h⟩ := bind_eq_some_iff.1 h
    obtain rfl := some.inj h
    rw [length_cons, length_cons, ih hmore]

theorem length_splitSign_le (codes : List Nat) : (splitSign codes).2.length ≤ codes.length := by
  have hrest : ∀ rest : List Nat, (trimStart isAsciiBlank rest).length ≤ rest.length := fun rest =>
    (dropWhile_suffix _).length_le
  fun_cases splitSign codes with
  | case1 rest => exact Nat.le_succ_of_le (hrest rest)
  | case2 rest => exact Nat.le_succ_of_le (hrest rest)
  | case3 codes => exact Nat.le_refl _

theorem length_withoutMark_le (base : Nat) (codes : List Nat) :
    (withoutMark base codes).length ≤ codes.length := by
  fun_cases withoutMark base codes <;> simp
  omega

/-- A written integer has no more digits than there are codes. -/
theorem integer?_lt {set : DigitSet} {base : Nat} (hbase : 0 < base) {codes : List Nat} {n : Int}
    (h : integer? set base codes = some n) : n < (base ^ codes.length : Nat) := by
  unfold integer? at h
  obtain ⟨folded, hfolded, h⟩ := bind_eq_some_iff.1 h
  obtain ⟨m, hm, hn⟩ := bind_eq_some_iff.1 h
  have hlen := calc
    (withoutMark base (splitSign (trim isAsciiBlank folded)).2).length
      ≤ (splitSign (trim isAsciiBlank folded)).2.length := length_withoutMark_le _ _
    _ ≤ (trim isAsciiBlank folded).length := length_splitSign_le _
    _ ≤ folded.length := length_trim_le _ _
    _ = codes.length := length_of_mapM hfolded
  have hvalue : m < base ^ codes.length :=
    Nat.lt_of_lt_of_le (digitsValue?_lt hm) (Nat.pow_le_pow_right hbase hlen)
  obtain rfl := some.inj hn
  split <;> omega

theorem exists_of_mapM {α β : Type} {l : List α} {f : α → Option β} {bs : List β}
    (h : l.mapM f = some bs) {a : α} (ha : a ∈ l) : ∃ b ∈ bs, f a = some b := by
  induction l generalizing bs with
  | nil => cases ha
  | cons first l ih =>
    rw [mapM_cons] at h
    obtain ⟨b, hb, h⟩ := bind_eq_some_iff.1 h
    obtain ⟨more, hmore, h⟩ := bind_eq_some_iff.1 h
    obtain rfl := some.inj h
    rcases mem_cons.1 ha with rfl | ha
    · exact ⟨b, mem_cons_self, hb⟩
    · obtain ⟨b', hb', hf⟩ := ih hmore ha
      exact ⟨b', mem_cons_of_mem _ hb', hf⟩

/-! ## Which codes an integer is written with -/

/-- A code of ASCII that is none of the separators `1C`..`1F`. -/
def IsShared (n : Nat) : Prop := n < 0x80 ∧ ¬ (0x1C ≤ n ∧ n ≤ 0x1F)

instance (n : Nat) : Decidable (IsShared n) := inferInstanceAs (Decidable (_ ∧ ¬ _))

theorem isShared_of_isAsciiBlank {n : Nat} (h : isAsciiBlank n) : IsShared n := by
  simp [isAsciiBlank] at h
  exact ⟨by omega, by omega⟩

theorem isShared_of_digitValue? {n d : Nat} (h : digitValue? n = some d) : IsShared n := by
  unfold digitValue? at h
  unfold IsShared
  grind

theorem isShared_of_digitsValue? {base : Nat} {digits : List Nat} {n : Nat}
    (h : digitsValue? base digits = some n) : ∀ d ∈ digits, IsShared d := by
  have hfold : ∀ (digits : List Nat) (start n : Nat),
      digits.foldlM (fun n d => (digitValue? d).bind fun v =>
        if v < base then some (n * base + v) else none) start = some n →
      ∀ d ∈ digits, IsShared d := by
    intro digits
    induction digits with
    | nil => simp
    | cons d digits ih =>
      intro start n hn
      rw [foldlM_cons] at hn
      obtain ⟨next, hnext, hn⟩ := bind_eq_some_iff.1 hn
      obtain ⟨v, hv, -⟩ := bind_eq_some_iff.1 hnext
      exact forall_mem_cons.2 ⟨isShared_of_digitValue? hv, ih _ _ hn⟩
  unfold digitsValue? at h
  split at h
  · cases h
  · exact hfold digits 0 n h

theorem isShared_of_trimStart {codes : List Nat}
    (h : ∀ c ∈ trimStart isAsciiBlank codes, IsShared c) : ∀ c ∈ codes, IsShared c := by
  intro c hc
  rw [← takeWhile_append_dropWhile (p := isAsciiBlank) (l := codes)] at hc
  rcases mem_append.1 hc with hc | hc
  · exact isShared_of_isAsciiBlank (all_eq_true.1 all_takeWhile c hc)
  · exact h c hc

theorem isShared_of_trim {codes : List Nat} (h : ∀ c ∈ trim isAsciiBlank codes, IsShared c) :
    ∀ c ∈ codes, IsShared c := by
  have hreversed : ∀ c ∈ (trimStart isAsciiBlank codes).reverse, IsShared c :=
    isShared_of_trimStart fun d hd => h d (mem_reverse.2 hd)
  exact isShared_of_trimStart fun c hc => hreversed c (mem_reverse.2 hc)

theorem isShared_of_splitSign {codes : List Nat} (h : ∀ c ∈ (splitSign codes).2, IsShared c) :
    ∀ c ∈ codes, IsShared c := by
  fun_cases splitSign codes with
  | case1 rest => exact forall_mem_cons.2 ⟨by decide, isShared_of_trimStart h⟩
  | case2 rest => exact forall_mem_cons.2 ⟨by decide, isShared_of_trimStart h⟩
  | case3 => rwa [splitSign] at h <;> assumption

theorem isShared_of_withoutMark {base : Nat} {codes : List Nat}
    (h : ∀ c ∈ withoutMark base codes, IsShared c) : ∀ c ∈ codes, IsShared c := by
  fun_cases withoutMark base codes with
  | case1 x rest hmark =>
    have hx : IsShared x := by
      simp at hmark
      rcases hmark.2 with rfl | rfl <;> decide
    rw [withoutMark, if_pos hmark] at h
    exact forall_mem_cons.2 ⟨by decide, forall_mem_cons.2 ⟨hx, h⟩⟩
  | case2 x rest hmark => rwa [withoutMark, if_neg hmark] at h
  | case3 _ hother =>
    rw [withoutMark] at h
    · exact h
    · exact hother

/-- **An integer in ASCII is written with shared codes.** -/
theorem isShared_of_integer? {base : Nat} {codes : List Nat} {n : Int}
    (h : integer? .ascii base codes = some n) : ∀ c ∈ codes, IsShared c := by
  unfold integer? at h
  obtain ⟨folded, hfolded, h⟩ := bind_eq_some_iff.1 h
  obtain ⟨m, hm, -⟩ := bind_eq_some_iff.1 h
  have hshared := isShared_of_trim (isShared_of_splitSign
    (isShared_of_withoutMark (isShared_of_digitsValue? hm)))
  intro c hc
  obtain ⟨code, hcode, hfold⟩ := exists_of_mapM hfolded hc
  unfold DigitSet.fold at hfold
  split at hfold
  · exact isShared_of_isAsciiBlank ‹_›
  · split at hfold
    · exact some.inj hfold ▸ hshared code hcode
    · cases hfold

end AddonBuilder.Text
