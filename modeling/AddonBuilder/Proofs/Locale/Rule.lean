import AddonBuilder.Locale.RuleScript
import AddonBuilder.Proofs.Text.Search

/-!
# Plural rules

A **rule** is a list of clauses joined by `or`, and a clause is a list of tests joined by `and`.
-/

namespace AddonBuilder.Locale.RuleScript

open Text List

/-! ## Rules -/

/-- A number or a range of numbers, its ends included. -/
inductive Piece where
  | number (k : Nat)
  | range (first last : Nat)
deriving DecidableEq, Repr

/-- A piece of a list as it is written. -/
def Piece.text : Piece → String
  | number k => toString k
  | range first last => toString first ++ ".." ++ toString last

def Piece.has (m : Nat) : Piece → Bool
  | number k => m == k
  | range first last => decide (first ≤ m) && decide (m ≤ last)

/-- The numbers that a piece names. -/
def Piece.numbers : Piece → List Nat
  | number k => [k]
  | range first last => [first, last]

def Piece.number? : Piece → Option Nat
  | number k => some k
  | range .. => none

def Piece.range? : Piece → Option (Nat × Nat)
  | number _ => none
  | range first last => some (first, last)

/-- The words before a list of pieces. -/
inductive ListWord where
  | inside
  | outside
  | within
deriving DecidableEq, Repr

def ListWord.text : ListWord → String
  | inside => "in"
  | outside => "not in"
  | within => "within"

/-- What is asked of a number.  There is always a piece in a list. -/
inductive Check where
  | is (v : Nat)
  | isNot (v : Nat)
  | among (word : ListWord) (first : Piece) (more : List Piece)
deriving DecidableEq, Repr

namespace Check

def relation : Check → String
  | is _ => "is"
  | isNot _ => "is not"
  | among word _ _ => word.text

/-- What stands after the words. -/
def operand : Check → String
  | is v | isNot v => toString v
  | among _ first more => joinStrings "," ((first :: more).map Piece.text)

def numbers : Check → List Nat
  | is v | isNot v => [v]
  | among _ first more => (first :: more).flatMap Piece.numbers

def holds (m : Nat) : Check → Bool
  | is v => m == v
  | isNot v => m != v
  | among .outside first more => !(first :: more).any (Piece.has m)
  | among _ first more => (first :: more).any (Piece.has m)

end Check

/-- A check of a number or of its remainder. -/
structure Test where
  modulus : Option {k : Nat // 0 < k}
  check : Check
deriving DecidableEq, Repr

namespace Test

def subjectText (t : Test) : String :=
  match t.modulus with
  | none => "n"
  | some k => "n mod " ++ toString k.val

def text (t : Test) : String := t.subjectText ++ " " ++ t.check.relation ++ " " ++ t.check.operand

def subject (t : Test) (n : Nat) : Nat :=
  match t.modulus with
  | none => n
  | some k => n % k.val

/-- The numbers that are written in a test. -/
def numbers (t : Test) : List Nat := (t.modulus.map Subtype.val).toList ++ t.check.numbers

def holds (n : Nat) (t : Test) : Bool := t.check.holds (t.subject n)

end Test

/-- Tests that have to hold together.  There is always one. -/
structure Clause where
  first : Test
  more : List Test
deriving DecidableEq, Repr

/-- Clauses of which one has to hold.  There is always one. -/
structure Rule where
  first : Clause
  more : List Clause
deriving DecidableEq, Repr

namespace Clause

def tests (c : Clause) : List Test := c.first :: c.more

def text (c : Clause) : String := joinStrings " and " (c.tests.map Test.text)

def holds (n : Nat) (c : Clause) : Bool := c.tests.all (Test.holds n)

end Clause

namespace Rule

def clauses (r : Rule) : List Clause := r.first :: r.more

def tests (r : Rule) : List Test := r.clauses.flatMap Clause.tests

def text (r : Rule) : String := joinStrings " or " (r.clauses.map Clause.text)

def holds (n : Nat) (r : Rule) : Bool := r.clauses.any (Clause.holds n)

end Rule

/-! ## Tests as they are written -/

/-- A number as it is written: digits, maybe with zeros in front. -/
structure Numeral where
  digits : List Char
  ne_nil : digits ≠ []
  isDigit : ∀ c ∈ digits, c.isDigit

namespace Numeral

def text (k : Numeral) : String := String.ofList k.digits

def value (k : Numeral) : Nat := Nat.ofDigitChars 10 k.digits 0

/-- A number without leading zeros. -/
def ofNat (k : Nat) : Numeral where
  digits := Nat.toDigits 10 k
  ne_nil := Nat.toDigits_ne_nil
  isDigit _ hc := Nat.isDigit_of_mem_toDigits (by decide) (by decide) hc

@[simp] theorem toList_text (k : Numeral) : k.text.toList = k.digits := String.toList_ofList

@[simp] theorem text_ofNat (k : Nat) : (ofNat k).text = toString k := by
  rw [← String.toList_inj, toList_text, toList_toString, ofNat]

@[simp] theorem value_ofNat (k : Nat) : (ofNat k).value = k := Nat.ofDigitChars_ten_toDigits

end Numeral

/-- A piece as it is written. -/
inductive Item where
  | number (k : Numeral)
  | range (first last : Numeral)

def Item.text : Item → String
  | number k => k.text
  | range first last => first.text ++ ".." ++ last.text

def Item.piece : Item → Piece
  | number k => .number k.value
  | range first last => .range first.value last.value

def Piece.item : Piece → Item
  | number k => .number (.ofNat k)
  | range first last => .range (.ofNat first) (.ofNat last)

@[simp] theorem Piece.text_item (p : Piece) : p.item.text = p.text := by
  cases p <;> simp [item, Item.text, text]

@[simp] theorem Piece.piece_item (p : Piece) : p.item.piece = p := by
  cases p <;> simp [item, Item.piece]

/-- A check as it is written. -/
inductive Wording where
  | is (v : Numeral)
  | isNot (v : Numeral)
  | among (word : ListWord) (first : Item) (more : List Item)

namespace Wording

def check : Wording → Check
  | is v => .is v.value
  | isNot v => .isNot v.value
  | among word first more => .among word first.piece (more.map Item.piece)

def operand : Wording → String
  | is v | isNot v => v.text
  | among _ first more => joinStrings "," ((first :: more).map Item.text)

end Wording

/-- A test as it is written. -/
structure WordedTest where
  modulus : Option Numeral
  wording : Wording

namespace WordedTest

def check (t : WordedTest) : Check := t.wording.check

def subjectText (t : WordedTest) : String :=
  match t.modulus with
  | none => "n"
  | some k => "n mod " ++ k.text

def text (t : WordedTest) : String :=
  t.subjectText ++ " " ++ t.check.relation ++ " " ++ t.wording.operand

def condition (t : WordedTest) : Condition :=
  ⟨t.modulus.map Numeral.value, t.check.relation, t.wording.operand⟩

end WordedTest

def Check.wording : Check → Wording
  | is v => .is (.ofNat v)
  | isNot v => .isNot (.ofNat v)
  | among word first more => .among word first.item (more.map Piece.item)

@[simp] theorem Check.check_wording (check : Check) : check.wording.check = check := by
  cases check <;> simp [wording, Wording.check, Function.comp_def]

@[simp] theorem Check.operand_wording (check : Check) : check.wording.operand = check.operand := by
  cases check <;> simp [wording, Wording.operand, operand, Function.comp_def]

def Test.worded (t : Test) : WordedTest := ⟨t.modulus.map fun k => .ofNat k.val, t.check.wording⟩

@[simp] theorem Test.check_worded (t : Test) : t.worded.check = t.check := t.check.check_wording

@[simp] theorem Test.text_worded (t : Test) : t.worded.text = t.text := by
  have hsubject : t.worded.subjectText = t.subjectText := by
    cases h : t.modulus <;> simp [worded, WordedTest.subjectText, subjectText, h]
  rw [WordedTest.text, hsubject, check_worded, worded, Check.operand_wording, text]

/-! ## Tests are found in the text -/

/-- The letters of numbers, ranges and lists. -/
def isOperandLetter (c : Char) : Bool := c.isDigit || c = ',' || c = '.'

theorem Item.isOperandLetter_of_mem {i : Item} {c : Char} (hc : c ∈ i.text.toList) :
    c.isDigit ∨ c = '.' := by
  cases i with
  | number k => exact .inl (k.isDigit c (k.toList_text ▸ hc))
  | range first last =>
    simp only [text, String.toList_append, mem_append, Numeral.toList_text] at hc
    rcases hc with (hc | hc) | hc
    · exact .inl (first.isDigit c hc)
    · exact .inr (by simpa using hc)
    · exact .inl (last.isDigit c hc)

theorem Item.exists_head (i : Item) : ∃ d w, i.text.toList = d :: w ∧ d.isDigit := by
  have hdigits : ∀ k : Numeral, ∃ d w, k.text.toList = d :: w ∧ d.isDigit := by
    intro k
    obtain ⟨d, w, hd⟩ := exists_cons_of_ne_nil k.ne_nil
    exact ⟨d, w, k.toList_text.trans hd, k.isDigit d (hd ▸ mem_cons_self)⟩
  cases i with
  | number k => exact hdigits k
  | range first last =>
    obtain ⟨d, w, hw, hd⟩ := hdigits first
    exact ⟨d, _, by rw [text, String.toList_append, String.toList_append, hw]; rfl, hd⟩

theorem Wording.isOperandLetter_of_mem {wording : Wording} {c : Char}
    (hc : c ∈ wording.operand.toList) : isOperandLetter c := by
  have hitem : ∀ i : Item, c ∈ i.text.toList → isOperandLetter c := by
    intro i hi
    rcases i.isOperandLetter_of_mem hi with h | rfl
    · simp [isOperandLetter, h]
    · rfl
  cases wording with
  | is v | isNot v => exact hitem (.number v) hc
  | among word first more =>
    rw [operand, map_cons, toList_joinStrings_cons, mem_append] at hc
    rcases hc with hc | hc
    · exact hitem first hc
    · obtain ⟨s, hs, hc⟩ := mem_flatMap.1 hc
      obtain ⟨i, -, rfl⟩ := mem_map.1 hs
      rcases mem_append.1 hc with hc | hc
      · obtain rfl : c = ',' := by simpa using hc
        rfl
      · exact hitem i hc

theorem Wording.exists_head (wording : Wording) :
    ∃ d w, wording.operand.toList = d :: w ∧ d.isDigit := by
  cases wording with
  | is v | isNot v => exact (Item.number v).exists_head
  | among word first more =>
    obtain ⟨d, w, hw, hd⟩ := first.exists_head
    exact ⟨d, _, by rw [operand, map_cons, toList_joinStrings_cons, hw]; rfl, hd⟩

/-- What may follow a test in a text: nothing, or a blank. -/
def Ends (cs : List Char) : Prop := ∀ c ∈ cs.head?, c = ' '

theorem ends_blank (cs : List Char) : Ends (' ' :: cs) := by
  intro c hc
  exact (Option.some.inj hc).symm

variable {rest : List Char}

theorem operand?_eq (wording : Wording) (hrest : Ends rest) :
    operand? (' ' :: (wording.operand.toList ++ rest)) = some (wording.operand, rest) := by
  have hletters : ∀ c ∈ wording.operand.toList, (!asciiBlankChar c) := by
    intro c hc
    have hletter := Wording.isOperandLetter_of_mem hc
    simp only [isOperandLetter, Bool.or_eq_true, decide_eq_true_eq] at hletter
    rcases hletter with (hdigit | rfl) | rfl
    · have := toNat_of_isDigit hdigit
      simp only [asciiBlankChar, isAsciiBlank, Bool.not_eq_true', Bool.or_eq_false_iff,
        beq_eq_false_iff_ne, Bool.and_eq_false_iff, decide_eq_false_iff_not]
      omega
    · decide
    · decide
  have hstop : rest.takeWhile (fun c => !asciiBlankChar c) = [] := by
    cases rest with
    | nil => rfl
    | cons c rest =>
      obtain rfl := hrest c rfl
      rfl
  obtain ⟨d, w, hw, -⟩ := wording.exists_head
  rw [operand?, takeWhile_append_of_pos hletters, hstop, append_nil, drop_left,
    if_neg (by simp [hw]), String.ofList_toList]

theorem relation?_eq (wording : Wording) (hrest : Ends rest) (relation : String) :
    relation? (relation.toList ++ ' ' :: (wording.operand.toList ++ rest)) relation =
      some (relation, wording.operand, rest) := by
  obtain ⟨d, w, hw, hd⟩ := wording.exists_head
  have hnot : dropStart? " not".toList (' ' :: (wording.operand.toList ++ rest)) = none := by
    have hne : 'n' ≠ d := by
      rintro rfl
      cases hd
    rw [hw]
    simp [dropStart?, hne]
  rw [relation?, dropStart?_append, Option.bind_eq_bind, Option.bind_some, hnot,
    Option.bind_none, operand?_eq wording hrest]
  rfl

theorem findSome?_relation (wording : Wording) (hrest : Ends rest) :
    relations.findSome? (relation? (wording.check.relation.toList ++ ' ' :: (wording.operand.toList ++ rest))) =
      some (wording.check.relation, wording.operand, rest) := by
  have hplain := relation?_eq wording hrest
  have hother : ∀ (relation : String) (cs : List Char),
      dropStart? relation.toList cs = none → relation? cs relation = none := by
    intro relation cs h
    rw [relation?, h]
    rfl
  unfold relations
  cases wording with
  | is v => rw [findSome?_cons, Wording.check, Check.relation, hplain "is"]
  | isNot v =>
    have hdrop : dropStart? "is".toList
        ("is not".toList ++ ' ' :: ((Wording.isNot v).operand.toList ++ rest)) =
        some (" not".toList ++ ' ' :: ((Wording.isNot v).operand.toList ++ rest)) := rfl
    have hnot : relation? ("is not".toList ++ ' ' :: ((Wording.isNot v).operand.toList ++ rest)) "is" =
        some ("is not", (Wording.isNot v).operand, rest) := by
      rw [relation?, hdrop, Option.bind_eq_bind, Option.bind_some, dropStart?_append,
        Option.bind_some, operand?_eq _ hrest]
      rfl
    rw [findSome?_cons, Wording.check, Check.relation, hnot]
  | among word first more =>
    cases word with
    | inside =>
      rw [Wording.check, Check.relation, ListWord.text, findSome?_cons, hother "is" _ rfl,
        findSome?_cons, hplain "in"]
    | within =>
      rw [Wording.check, Check.relation, ListWord.text, findSome?_cons, hother "is" _ rfl,
        findSome?_cons, hother "in" _ rfl, findSome?_cons, hplain "within"]
    | outside =>
      rw [Wording.check, Check.relation, ListWord.text, findSome?_cons, hother "is" _ rfl,
        findSome?_cons, hother "in" _ rfl, findSome?_cons, hother "within" _ rfl,
        findSome?_cons, hplain "not in"]

theorem modulus_eq (k : Numeral) (cs : List Char) :
    modulus (" mod ".toList ++ (k.text.toList ++ ' ' :: cs)) = (some k.value, ' ' :: cs) := by
  have htake : (k.text.toList ++ ' ' :: cs).takeWhile Char.isDigit = k.digits := by
    rw [k.toList_text, takeWhile_append_of_pos k.isDigit]
    exact append_nil _
  have hvalue : k.digits.foldl (fun n d => n * 10 + (d.toNat - 0x30)) 0 = k.value := by
    have hread : ∀ (ds : List Char) (m : Nat),
        ds.foldl (fun n d => n * 10 + (d.toNat - 0x30)) m = Nat.ofDigitChars 10 ds m := by
      intro ds
      induction ds with
      | nil => intro m; rfl
      | cons d ds ih =>
        intro m
        rw [foldl_cons, ih, Nat.ofDigitChars_cons, Nat.mul_comm]
        rfl
    exact hread _ _
  rw [modulus, dropStart?_append]
  dsimp only
  rw [htake, if_neg (by simp [k.ne_nil]), hvalue, k.toList_text, drop_left]

/-- **A test is found as one condition.** -/
theorem condition?_text (t : WordedTest) (hrest : Ends rest) :
    condition? (t.text.toList ++ rest) = some (t.condition, rest) := by
  have hrelation := findSome?_relation t.wording hrest
  rw [← WordedTest.check] at hrelation
  have hwords : t.check.relation.toList.head? ≠ some 'm' := by
    cases t.check with
    | is v | isNot v => simp [Check.relation]
    | among word first more => cases word <;> simp [Check.relation, ListWord.text]
  cases hmodulus : t.modulus with
  | none =>
    have htext : t.text.toList ++ rest =
        'n' :: ' ' :: (t.check.relation.toList ++ ' ' :: (t.wording.operand.toList ++ rest)) := by
      simp [WordedTest.text, WordedTest.subjectText, hmodulus]
    have hmod : modulus (' ' :: (t.check.relation.toList ++ ' ' :: (t.wording.operand.toList ++ rest))) =
        (none, ' ' :: (t.check.relation.toList ++ ' ' :: (t.wording.operand.toList ++ rest))) := by
      have hdrop : dropStart? " mod ".toList
          (' ' :: (t.check.relation.toList ++ ' ' :: (t.wording.operand.toList ++ rest))) = none := by
        cases hw : t.check.relation.toList with
        | nil => rfl
        | cons c w =>
          have hc : 'm' ≠ c := by
            rintro rfl
            exact hwords (hw ▸ rfl)
          simp [dropStart?, hc]
      rw [modulus, hdrop]
    simp only [htext, condition?, hmod, hrelation, WordedTest.condition, hmodulus]
    rfl
  | some k =>
    have htext : t.text.toList ++ rest = 'n' :: (" mod ".toList ++ (k.text.toList ++
        ' ' :: (t.check.relation.toList ++ ' ' :: (t.wording.operand.toList ++ rest)))) := by
      simp [WordedTest.text, WordedTest.subjectText, hmodulus]
    simp only [htext, condition?, modulus_eq, hrelation, WordedTest.condition, hmodulus]
    rfl

end AddonBuilder.Locale.RuleScript
