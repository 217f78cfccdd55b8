import AddonBuilder.Proofs.Version.Parts
import Mathlib.Data.List.Forall2
import Mathlib.Data.Prod.Lex
import Mathlib.Data.String.Basic

/-!
# The order of versions

A part of a version has a **rank**, a tuple of a number, a word, a second number and an extra word,
and ranks are ordered lexicographically; a missing word is the greatest one.
-/

namespace AddonBuilder.Version

open List Part

/-- How an element of a linear order stands to another. -/
def order {α : Type} [LinearOrder α] (a b : α) : Ordering := cmp a b

/-- What parts are ordered by. -/
abbrev Rank := WithTop ℤ ×ₗ WithTop String ×ₗ ℤ ×ₗ WithTop String

/-- The place of a word among the words: a missing word comes last. -/
def wordRank : Option String → WithTop String
  | none => ⊤
  | some w => (w : WithTop String)

def rankOf (number : WithTop ℤ) (word : Option String) (second : ℤ) (extra : Option String) : Rank :=
  toLex (number, toLex (wordRank word, toLex (second, wordRank extra)))

/-- The rank of a part as it is written; `star` is the number of the part `*`. -/
def Written.rank (star : WithTop ℤ) : Written → Rank
  | nothing => rankOf 0 none 0 none
  | any => rankOf star none 0 none
  | next a => rankOf (a + 1 : ℤ) (some "pre") 0 none
  | fields a word c extra => rankOf a word c extra

def Part.rank (p : Part) : Rank := rankOf (p.number : ℤ) p.word p.second p.extra

def fill {α : Type} (missing : α) (n : Nat) (l : List α) : List α :=
  l ++ replicate (n - l.length) missing

/-- The texts of the parts of a version spell these parts. -/
def Reads (version : String) (ws : List Written) : Prop :=
  Forall₂ (fun p w => Spells p.toList w) (parts version) ws

/-- The order of two sequences of parts as they are written. -/
def writtenOrder (star : WithTop ℤ) (as bs : List Written) : Ordering :=
  order ((fill .nothing bs.length as).map (Written.rank star))
    ((fill .nothing as.length bs).map (Written.rank star))

/-! ### Parts -/

theorem order_toLex {α β : Type} [LinearOrder α] [LinearOrder β] (a c : α) (b d : β) :
    order (toLex (a, b)) (toLex (c, d)) = (order a c).then (order b d) := by
  rw [order, order, order, cmp_eq_compare, cmp_eq_compare, cmp_eq_compare, Prod.Lex.compare_def]
  rfl

theorem order_cons {α : Type} [LinearOrder α] (a b : α) (as bs : List α) :
    order (a :: as) (b :: bs) = (order a b).then (order as bs) := by
  rcases lt_trichotomy a b with h | rfl | h
  · have hcons : a :: as < b :: bs := cons_lt_cons_iff.2 (.inl h)
    rw [order, order, (cmp_eq_lt_iff _ _).2 h, (cmp_eq_lt_iff _ _).2 hcons, Ordering.lt_then]
  · have hcons : StrictMono (cons a) := fun _ _ h => cons_lt_cons_iff.2 (.inr ⟨rfl, h⟩)
    have hself : order a a = .eq := cmp_self_eq_eq a
    rw [hself, Ordering.eq_then]
    exact hcons.cmp_map_eq as bs
  · have hcons : b :: bs < a :: as := cons_lt_cons_iff.2 (.inl h)
    rw [order, order, (cmp_eq_gt_iff _ _).2 h, (cmp_eq_gt_iff _ _).2 hcons, Ordering.gt_then]

theorem compareWords_eq_order (a b : Option String) :
    compareWords a b = order (wordRank a) (wordRank b) := by
  have hcoe : ∀ v w : String, order (v : WithTop String) w = order v w :=
    WithTop.coe_strictMono.cmp_map_eq
  cases a with
  | none =>
    cases b with
    | none => exact (cmp_self_eq_eq _).symm
    | some w => exact (cmp_eq_gt_iff _ _).2 (WithTop.coe_lt_top w) |>.symm
  | some v =>
    cases b with
    | none => exact (cmp_eq_lt_iff _ _).2 (WithTop.coe_lt_top v) |>.symm
    | some w => exact (cmp_eq_compare v w).symm.trans (hcoe v w).symm

/-- **Parts are ordered by their rank.** -/
theorem Part.compare_eq_order (p q : Part) : p.compare q = order p.rank q.rank := by
  have hcast : StrictMono ((↑) : ℕ → ℤ) := fun _ _ => Int.ofNat_lt.2
  have hnat : ∀ m n : ℕ, Ord.compare m n = order (m : ℤ) n := fun m n =>
    (cmp_eq_compare m n).symm.trans (hcast.cmp_map_eq m n).symm
  have htop : ∀ m n : ℤ, order (m : WithTop ℤ) n = order m n := WithTop.coe_strictMono.cmp_map_eq
  rw [rank, rank, rankOf, rankOf, order_toLex, order_toLex, order_toLex, compare, hnat, hnat,
    compareWords_eq_order, compareWords_eq_order, htop]

/-- Where no number is negative, reading keeps the rank. -/
theorem Written.rank_part {w : Written} (h : w.Nonnegative) :
    w.part.rank = w.rank (anyNumber : ℤ) := by
  cases w with
  | nothing => rfl
  | any => rfl
  | next a =>
    have ha : ((a.natAbs + 1 : ℕ) : ℤ) = a + 1 := by
      have := Int.natAbs_of_nonneg h
      omega
    rw [part, rank, Part.rank, ha]
    rfl
  | fields a word c extra =>
    rw [part, rank, Part.rank, Int.natAbs_of_nonneg h.1, Int.natAbs_of_nonneg h.2]

/-! ### Versions -/

@[simp] theorem fill_cons {α : Type} (missing : α) (n : Nat) (a : α) (l : List α) :
    fill missing (n + 1) (a :: l) = a :: fill missing n l := by
  simp [fill]

@[simp] theorem fill_nil_succ {α : Type} (missing : α) (n : Nat) :
    fill missing (n + 1) [] = missing :: fill missing n [] := rfl

@[simp] theorem fill_zero {α : Type} (missing : α) (l : List α) : fill missing 0 l = l := by
  simp [fill]

/-- One pair of parts decides, or leaves it to the rest. -/
theorem step_eq {s t : String} {p q : Part} (hp : parse? s = some p)
    (hq : parse? t = some q) (o : Ordering) :
    compareParts?.step s t (some o) = some ((order p.rank q.rank).then o) := by
  rw [compareParts?.step, hp, hq, ← compare_eq_order]
  cases h : p.compare q <;> simp [h]

/-- **Versions are ordered by the ranks of their parts**, if all parts can be read. -/
theorem compareParts?_eq {as bs : List String} {ps qs : List Part}
    (ha : Forall₂ (fun s p => parse? s = some p) as ps)
    (hb : Forall₂ (fun s p => parse? s = some p) bs qs) :
    compareParts? as bs =
      some (order ((fill {} qs.length ps).map rank) ((fill {} ps.length qs).map rank)) := by
  have hmissing : parse? "" = some {} := rfl
  fun_induction compareParts? as bs generalizing ps qs with
  | case1 =>
    cases ha
    cases hb
    rfl
  | case2 a as ih =>
    cases hb
    cases ha with
    | cons hp ha =>
      rw [ih ha .nil, step_eq hp hmissing, ← order_cons]
      simp
  | case3 b bs ih =>
    cases ha
    cases hb with
    | cons hq hb =>
      rw [ih .nil hb, step_eq hmissing hq, ← order_cons]
      simp
  | case4 a as b bs ih =>
    cases ha with
    | cons hp ha =>
      cases hb with
      | cons hq hb =>
        rw [ih ha hb, step_eq hp hq, ← order_cons]
        simp

theorem Reads.parse? {version : String} {ws : List Written} (h : Reads version ws) :
    Forall₂ (fun s p => parse? s = some p) (parts version) (ws.map Written.part) := by
  rw [forall₂_map_right_iff]
  refine Forall₂.imp (fun s w hw => ?_) h
  simpa using hw.parse?_eq

theorem exists_reads {version : String} (h : ∀ s ∈ parts version, (parse? s).isSome) :
    ∃ ws, Reads version ws := by
  unfold Reads
  generalize parts version = texts at h
  induction texts with
  | nil => exact ⟨[], .nil⟩
  | cons s ss ih =>
    obtain ⟨p, hp⟩ := Option.isSome_iff_exists.1 (h s mem_cons_self)
    obtain ⟨w, hw⟩ := exists_spells hp
    obtain ⟨ws, hws⟩ := ih fun t ht => h t (mem_cons_of_mem s ht)
    exact ⟨w :: ws, .cons hw hws⟩

theorem map_rank_fill {ws : List Written} (h : ∀ w ∈ ws, w.Nonnegative) (n : Nat) :
    (fill {} n (ws.map Written.part)).map rank =
      (fill .nothing n ws).map (Written.rank (anyNumber : ℤ)) := by
  have hranks : ∀ w ∈ ws, w.part.rank = w.rank (anyNumber : ℤ) := fun w hw =>
    Written.rank_part (h w hw)
  have hmissing : rank {} = Written.nothing.rank (anyNumber : ℤ) := rfl
  simp only [fill, map_append, map_map, length_map, map_replicate, hmissing]
  congr 1
  exact map_congr_left hranks

theorem Reads.compare?_eq {a b : String} {as bs : List Written} (ha : Reads a as) (hb : Reads b bs) :
    compare? a b = some (order ((fill {} bs.length (as.map Written.part)).map rank)
      ((fill {} as.length (bs.map Written.part)).map rank)) := by
  rw [compare?, compareParts?_eq ha.parse? hb.parse?, length_map, length_map]

/-- **The order of versions.**  Two versions all of whose parts can be read are ordered as the tuples
of what is written in their parts, one after another, if no number is negative; a missing part is a
part of zeros without words, and the part `*` has the number `anyNumber`. -/
theorem compare?_eq_writtenOrder (a b : String) (ha : ∀ s ∈ parts a, (Part.parse? s).isSome = true)
    (hb : ∀ s ∈ parts b, (Part.parse? s).isSome = true) :
    (∃ as, Reads a as) ∧ (∃ bs, Reads b bs) ∧
      ∀ as bs, Reads a as → Reads b bs → (∀ w ∈ as ++ bs, w.Nonnegative) →
        compare? a b = some (writtenOrder (anyNumber : ℤ) as bs) := by
  refine ⟨exists_reads ha, exists_reads hb, fun as bs has hbs hpos => ?_⟩
  obtain ⟨hpos₁, hpos₂⟩ := List.forall_mem_append.1 hpos
  rw [has.compare?_eq hbs, map_rank_fill hpos₁, map_rank_fill hpos₂]
  rfl

/-- A part with all four fields before a part with a word only, and a missing part beside `*`. -/
theorem compare?_eq_writtenOrder_mixed : (∀ s ∈ parts "1.1pre10a", (Part.parse? s).isSome = true) ∧
    (∀ s ∈ parts "1.0+.*", (Part.parse? s).isSome = true) ∧
    ∃ as bs, Reads "1.1pre10a" as ∧ Reads "1.0+.*" bs ∧ (∀ w ∈ as ++ bs, w.Nonnegative) ∧
      writtenOrder (anyNumber : ℤ) as bs = .gt ∧ compare? "1.1pre10a" "1.0+.*" = some .gt := by
  have ha : ∀ s ∈ parts "1.1pre10a", (Part.parse? s).isSome = true := by decide
  have hb : ∀ s ∈ parts "1.0+.*", (Part.parse? s).isSome = true := by decide
  have hone : Numeral ['1'] (1 : ℕ) := numeral_of_decimal (by decide) (by decide) (by decide)
  have hten : Numeral ['1', '0'] (10 : ℕ) := numeral_of_decimal (by decide) (by decide) (by decide)
  have hzero : Numeral ['0'] (0 : ℕ) := numeral_of_decimal (by decide) (by decide) (by decide)
  have hpre : WordLetters ['p', 'r', 'e'] := by simp [WordLetters, Part.startsNumber]
  have hends : EndsNumeral (['p', 'r', 'e'] ++ ['1', '0']) := by simp [EndsNumeral]
  have hends' : EndsNumeral ['a'] := by simp [EndsNumeral]
  have has : Reads "1.1pre10a" [.fields 1 none 0 none, .fields 1 (some "pre") 10 (some "a")] := by
    have hparts : parts "1.1pre10a" = ["1", "1pre10a"] := by decide
    rw [Reads, hparts]
    exact .cons (.number hone)
      (.cons (.second hone hpre hten hends (by simp) hends' nextLines_nil) .nil)
  have hbs : Reads "1.0+.*" [.fields 1 none 0 none, .next 0, .any] := by
    have hparts : parts "1.0+.*" = ["1", "0+", "*"] := by decide
    rw [Reads, hparts]
    exact .cons (.number hone) (.cons (.next hzero nextLines_nil) (.cons .any .nil))
  have hpos : ∀ w ∈ [Written.fields 1 none 0 none, .fields 1 (some "pre") 10 (some "a")] ++
      [.fields 1 none 0 none, .next 0, .any], w.Nonnegative := by
    simp [Written.Nonnegative]
  have horder : writtenOrder (anyNumber : ℤ)
      [.fields 1 none 0 none, .fields 1 (some "pre") 10 (some "a")]
      [.fields 1 none 0 none, .next 0, .any] = .gt := by decide
  exact ⟨ha, hb, _, _, has, hbs, hpos, horder,
    horder ▸ (compare?_eq_writtenOrder _ _ ha hb).2.2 _ _ has hbs hpos⟩

/-- The part `*` is not beyond every number, and a minus sign is not seen. -/
theorem not_toolkit_order :
    (¬ ∀ (a b : String) (as bs : List Written), (∀ s ∈ parts a, (Part.parse? s).isSome = true) →
      (∀ s ∈ parts b, (Part.parse? s).isSome = true) → Reads a as → Reads b bs →
      compare? a b = some (writtenOrder ⊤ as bs)) ∧
    ∃ as bs, Reads "-1" as ∧ Reads "1" bs ∧ compare? "-1" "1" = some .eq ∧
      writtenOrder ⊤ as bs = .lt := by
  constructor
  · intro h
    have hdigits : Numeral "9223372036854775808".toList (9223372036854775808 : ℕ) :=
      numeral_of_decimal (by decide) (by decide) (by decide)
    have hlarge : Reads "9223372036854775808" [.fields 9223372036854775808 none 0 none] := by
      have hparts : parts "9223372036854775808" = ["9223372036854775808"] := by decide
      rw [Reads, hparts]
      exact .cons (.number hdigits) .nil
    have hstar : Reads "*" [.any] := by
      have hparts : parts "*" = ["*"] := by decide
      rw [Reads, hparts]
      exact .cons .any .nil
    have := h "*" "9223372036854775808" _ _ (by decide) (by decide) hstar hlarge
    rw [hstar.compare?_eq hlarge] at this
    revert this
    decide
  · have hparts : parts "-1" = ["-1"] := by decide
    have hparts' : parts "1" = ["1"] := by decide
    have hminus : Reads "-1" [.fields (-1) none 0 none] := by
      rw [Reads, hparts]
      have hdigits : ∀ c ∈ ['1'], c.isDigit = true := by simp
      exact .cons (.number (.minus (by decide) hdigits)) .nil
    have hplus : Reads "1" [.fields 1 none 0 none] := by
      rw [Reads, hparts']
      have hone : Numeral ['1'] (1 : ℕ) := numeral_of_decimal (by decide) (by decide) (by decide)
      exact .cons (.number hone) .nil
    refine ⟨_, _, hminus, hplus, ?_, ?_⟩
    · rw [hminus.compare?_eq hplus]
      decide
    · decide

end AddonBuilder.Version
