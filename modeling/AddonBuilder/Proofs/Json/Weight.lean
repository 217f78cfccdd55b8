import AddonBuilder.Proofs.Json.Acceptance
import AddonBuilder.Proofs.Json.StringGrammar
import Mathlib.Algebra.GroupWithZero.Nat
import Mathlib.Algebra.Order.BigOperators.Group.List
import Mathlib.Algebra.Order.Group.Nat
import Mathlib.Data.List.Nodup
import Mathlib.Data.List.Perm.Subperm

/-!
# What strings can denote

A letter that must be escaped cannot stand for itself, but a document may contain such letters as
parts of escapes or around its strings.
-/

namespace AddonBuilder.Json

open List Value

def unitWeight (p : CodePoint) : Nat := if p = 0x5C then 2 else if p = 0x75 then 1 else 0

/-- What a letter weighs in a string beyond its weight as a unit; nothing unless it must be
escaped. -/
def burden (p : CodePoint) : Nat :=
  if p = 0x5C then 1 else if p = 0x22 ∨ p.val < 0x20 then 2 else 0

def weigh (f : CodePoint → Nat) (t : Text) : Nat := (t.map f).sum

@[simp]
theorem weigh_nil (f : CodePoint → Nat) : weigh f [] = 0 := rfl

@[simp]
theorem weigh_cons (f : CodePoint → Nat) (p : CodePoint) (t : Text) :
    weigh f (p :: t) = f p + weigh f t := by
  simp [weigh]

@[simp]
theorem weigh_append (f : CodePoint → Nat) (s t : Text) :
    weigh f (s ++ t) = weigh f s + weigh f t := by
  simp [weigh]

/-- The weight of a text that a string denotes. -/
def textWeight (t : Text) : Nat := weigh unitWeight t + weigh burden t

/-- A letter that may stand for itself in a string. -/
def Unescaped (p : CodePoint) : Prop := p ≠ 0x22 ∧ p ≠ 0x5C ∧ 0x20 ≤ p.val

instance (p : CodePoint) : Decidable (Unescaped p) := inferInstanceAs (Decidable (_ ∧ _ ∧ _))

theorem burden_eq_zero_iff {p : CodePoint} : burden p = 0 ↔ Unescaped p := by
  unfold burden Unescaped
  grind

theorem le_weigh_of_mem {f : CodePoint → Nat} {p : CodePoint} {t : Text} (h : p ∈ t) :
    f p ≤ weigh f t :=
  single_le_sum (fun _ _ => Nat.zero_le _) _ (mem_map_of_mem h)

theorem Escape.weight_le {e : Text} {p : CodePoint} (h : Escape {} e p) :
    unitWeight p + burden p ≤ weigh unitWeight e := by
  have hmost : unitWeight p + burden p ≤ 3 := by
    by_cases hback : p = 0x5C
    · rw [hback]
      decide
    · have hunit : unitWeight p ≤ 1 := by
        rw [unitWeight, if_neg hback]
        split <;> omega
      have hburden : burden p ≤ 2 := by
        rw [burden, if_neg hback]
        split <;> omega
      omega
  -- A long escape has a backslash and the letter `u`, which outweigh every letter.
  have hlong : ∀ rest : Text, 3 ≤ weigh unitWeight (0x5C :: 0x75 :: rest) := by
    intro rest
    have hstart : unitWeight 0x5C = 2 ∧ unitWeight 0x75 = 1 := by decide
    rw [weigh_cons, weigh_cons]
    omega
  cases h with
  | letter hp =>
    have hletters : (escapeLetters.all fun x =>
        decide (unitWeight x.2 + burden x.2 ≤ weigh unitWeight [0x5C, x.1])) := by decide
    exact of_decide_eq_true (all_eq_true.1 hletters _ (simpleEscape?_eq_some_iff.1 hp))
  | number => exact hmost.trans (hlong _)
  | pair => exact hmost.trans (hlong _)

theorem stringOf_unescaped {t : Text} (h : ∀ p ∈ t, Unescaped p) :
    StringOf (Escape {}) (t ++ [0x22]) t := by
  induction t with
  | nil => exact .close
  | cons p t ih =>
    obtain ⟨hquote, hback, hcontrol⟩ := h p mem_cons_self
    exact .plain hquote hback hcontrol (ih fun q hq => h q (mem_cons_of_mem p hq))

/-- **A string weighs at least as much as what it denotes.** -/
theorem StringOf.weight_le {body t : Text} (h : StringOf (Escape {}) body t) :
    textWeight t ≤ weigh unitWeight body := by
  unfold textWeight
  induction h with
  | close => simp
  | plain hquote hback hcontrol _ ih =>
    have hburden := burden_eq_zero_iff.2 ⟨hquote, hback, hcontrol⟩
    rw [weigh_cons, weigh_cons, weigh_cons, hburden]
    omega
  | escaped he _ ih =>
    have := he.weight_le
    rw [weigh_cons, weigh_cons, weigh_append]
    omega

def Value.weight : Value → Nat
  | text t => textWeight t
  | _ => 0

def Phrase.weight : Phrase Value → Nat
  | document v => v.weight
  | items _ => 0
  | members l => (l.map fun m => m.2.weight).sum

/-- **A phrase is written with at least its weight.** -/
theorem Derives.weight_le {t : Text} {p : Phrase Value} (h : Derives {} reading t p) :
    p.weight ≤ weigh unitWeight t := by
  induction h with
  | constant k => cases k <;> exact Nat.zero_le _
  | string h =>
    have := (stringToken_iff_stringOf.1 h).weight_le
    simp only [Phrase.weight, reading, weight, weigh_cons]
    omega
  | lastMember _ _ _ _ _ ih =>
    simp only [Phrase.weight, weigh_cons, weigh_append, map_cons, map_nil,
      sum_cons, sum_nil] at ih ⊢
    omega
  | member _ _ _ _ _ _ _ ih ihrest =>
    simp only [Phrase.weight, weigh_cons, weigh_append, map_cons, sum_cons] at ih ihrest ⊢
    omega
  | _ => exact Nat.zero_le _

/-- **What is found weighs no more than the document.**  The texts are those under different keys. -/
theorem weight_found_le {s : Text} {members : Members} (h : decode s = .ok (.object members))
    {found : List (Text × Text)} (hkeys : (found.map Prod.fst).Nodup)
    (hfound : ∀ e ∈ found, Assoc.get? members e.1 = some (.text e.2)) :
    (found.map fun e => textWeight e.2).sum ≤ weigh unitWeight s := by
  obtain ⟨w, t, w', rfl, -, hderives, -⟩ := decode_eq_ok_iff.1 h
  rw [weigh_append, weigh_append]
  refine le_trans ?_ (Nat.le_trans (Nat.le_add_right _ _) (Nat.le_add_left _ _))
  have hmem : ∀ e ∈ found, (e.1, text e.2) ∈ members := fun e he =>
    Assoc.mem_of_get? (hfound e he)
  generalize hp : Phrase.document (object members) = p at hderives
  cases hderives with
  | constant k => cases k <;> cases hp
  | emptyObject hw =>
    cases hp
    have hnone : found = [] := eq_nil_iff_forall_not_mem.2 fun e he => by cases hmem e he
    rw [hnone]
    exact Nat.zero_le _
  | @object w body l hw hbody =>
    cases hp
    have hsub : found.map (fun e => (e.1, text e.2)) ⊆ l := by
      intro m hm
      obtain ⟨e, he, rfl⟩ := mem_map.1 hm
      exact Assoc.mem_of_mem_ofList (hmem e he)
    have hnodup : (found.map fun e => (e.1, text e.2)).Nodup := by
      refine Nodup.of_map Prod.fst ?_
      rwa [map_map]
    obtain ⟨l', hperm, hsublist⟩ := subperm_of_subset hnodup hsub
    calc (found.map fun e => textWeight e.2).sum
        = ((found.map fun e => (e.1, text e.2)).map fun m => m.2.weight).sum := by
          rw [map_map]
          rfl
      _ = (l'.map fun m => m.2.weight).sum := (hperm.symm.map _).sum_eq
      _ ≤ (l.map fun m => m.2.weight).sum := (hsublist.map _).sum_le_sum fun _ _ => Nat.zero_le _
      _ ≤ weigh unitWeight body := hbody.weight_le
      _ ≤ weigh unitWeight (0x7B :: (w ++ body)) := by
          rw [weigh_cons, weigh_append]
          omega
  | _ => cases hp

end AddonBuilder.Json
