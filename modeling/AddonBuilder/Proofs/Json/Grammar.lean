import AddonBuilder.Proofs.Json.Lexeme
import AddonBuilder.Proofs.Json.StringBody

/-!
# The grammar of JSON texts

A **phrase** is a document, the items of an array up to the closing bracket, or the members of an
object up to the closing brace.
-/

namespace AddonBuilder.Json

open Lexeme

/-- White space of the format. -/
def Blanks (t : Text) : Prop := ∀ u ∈ t, Text.isAsciiBlank u.val = true

/-- A part of a document with its meaning. -/
inductive Phrase (α : Type) where
  | document (a : α)
  | items (l : List α)
  | members (l : List (Text × α))

/-- The grammar: a text spells a phrase, whose value a reading gives. -/
inductive Derives (mode : Mode) {α : Type} (r : Reading α) : Text → Phrase α → Prop
  | constant (k : Constant) : Derives mode r k.word (.document (r.constant k))
  | integer {n : Text} (hn : Integer n) : Derives mode r n (.document (r.integer n))
  | real {n f e : Text} (hn : Integer n) (hf : Fraction f) (he : Exponent e) (hreal : f ++ e ≠ []) :
      Derives mode r (n ++ (f ++ e)) (.document (r.real (n ++ (f ++ e))))
  | string {body t : Text} (h : StringToken mode body t) :
      Derives mode r (0x22 :: body) (.document (r.string t))
  | emptyArray {w : Text} (hw : Blanks w) :
      Derives mode r (0x5B :: (w ++ [0x5D])) (.document (r.array []))
  | array {w body : Text} {l : List α} (hw : Blanks w) (hbody : Derives mode r body (.items l)) :
      Derives mode r (0x5B :: (w ++ body)) (.document (r.array l))
  | emptyObject {w : Text} (hw : Blanks w) :
      Derives mode r (0x7B :: (w ++ [0x7D])) (.document r.emptyObject)
  | object {w body : Text} {l : List (Text × α)}
      (hw : Blanks w) (hbody : Derives mode r body (.members l)) :
      Derives mode r (0x7B :: (w ++ body)) (.document (r.object (Assoc.ofList l)))
  | lastItem {t w : Text} {a : α} (hitem : Derives mode r t (.document a)) (hw : Blanks w) :
      Derives mode r (t ++ (w ++ [0x5D])) (.items [a])
  | item {t w w' body : Text} {a : α} {l : List α}
      (hitem : Derives mode r t (.document a)) (hw : Blanks w) (hw' : Blanks w')
      (hbody : Derives mode r body (.items l)) :
      Derives mode r (t ++ (w ++ 0x2C :: (w' ++ body))) (.items (a :: l))
  | lastMember {k key w w₁ t w₂ : Text} {a : α}
      (hkey : StringToken mode k key) (hw : Blanks w) (hw₁ : Blanks w₁)
      (hitem : Derives mode r t (.document a)) (hw₂ : Blanks w₂) :
      Derives mode r (0x22 :: (k ++ (w ++ 0x3A :: (w₁ ++ (t ++ (w₂ ++ [0x7D]))))))
        (.members [(key, a)])
  | member {k key w w₁ t w₂ w₃ body : Text} {a : α} {l : List (Text × α)}
      (hkey : StringToken mode k key) (hw : Blanks w) (hw₁ : Blanks w₁)
      (hitem : Derives mode r t (.document a)) (hw₂ : Blanks w₂) (hw₃ : Blanks w₃)
      (hbody : Derives mode r body (.members l)) :
      Derives mode r (0x22 :: (k ++ (w ++ 0x3A :: (w₁ ++ (t ++ (w₂ ++ 0x2C :: (w₃ ++ body)))))))
        (.members ((key, a) :: l))

/-- A whole text that is a document. -/
def Spells (mode : Mode) {α : Type} (r : Reading α) (s : Text) (a : α) : Prop :=
  ∃ w t w', s = w ++ (t ++ w') ∧ Blanks w ∧ Derives mode r t (.document a) ∧ Blanks w'

/-- A unit with which a token may start: it is no white space and closes nothing. -/
def Opens (u : CodePoint) : Prop := Text.isAsciiBlank u.val = false ∧ u ≠ 0x5D ∧ u ≠ 0x7D

instance (u : CodePoint) : Decidable (Opens u) := inferInstanceAs (Decidable (_ ∧ _ ∧ _))

theorem opens_of_isDigit {u : CodePoint} (h : isDigit u) : Opens u := by
  have hrange : 0x30 ≤ u.val ∧ u.val ≤ 0x39 := by simpa [isDigit] using h
  refine ⟨?_, ?_, ?_⟩
  · simp [Text.isAsciiBlank]
    omega
  all_goals
    rintro rfl
    revert hrange
    decide

theorem Lexeme.Integer.opens {n : Text} (h : Integer n) (rest : Text) :
    ∃ u after, n ++ rest = u :: after ∧ Opens u := by
  obtain ⟨u, after, rfl, hu | ⟨rfl, -⟩⟩ := Parser.integer_head h
  · exact ⟨u, after ++ rest, rfl, opens_of_isDigit hu⟩
  · exact ⟨0x2D, after ++ rest, rfl, by decide⟩

/-- No phrase is empty, and each begins with a sign that opens one. -/
theorem Derives.opens {mode : Mode} {α : Type} {r : Reading α} {t : Text} {p : Phrase α}
    (h : Derives mode r t p) : ∃ u rest, t = u :: rest ∧ Opens u := by
  induction h with
  | constant k => cases k <;> exact ⟨_, _, rfl, by decide⟩
  | integer hn => simpa using hn.opens []
  | real hn => exact hn.opens _
  | lastItem _ _ ih | item _ _ _ _ ih =>
    obtain ⟨u, rest, rfl, hu⟩ := ih
    exact ⟨u, _, rfl, hu⟩
  | _ => exact ⟨_, _, rfl, by decide⟩

end AddonBuilder.Json
