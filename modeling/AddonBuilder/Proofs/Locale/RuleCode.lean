import AddonBuilder.Proofs.Locale.Expression
import AddonBuilder.Proofs.Locale.Rule

/-!
# The code of plural rules

The code of a rule comes about in three turns over its text: conditions are turned into code, then
every `or` into `||`, then every `and` into `&&`.
-/

namespace AddonBuilder.Locale.RuleScript

open Script Text Phrase String
open Binary64 (IsExact isExact_of_le)

/-! ## Phrases of tests -/

variable {subject : String} {c : Char}

/-- Pieces with the ranges first. -/
def ordered (pieces : List Piece) : List Piece :=
  (pieces.filterMap Piece.range?).map (fun r => .range r.1 r.2) ++
    (pieces.filterMap Piece.number?).map .number

/-- The phrase that asks for one of several pieces. -/
def Piece.phrase (p : Phrase) : Piece → Phrase
  | number k => (p.against .equal k).enclosed
  | range first last => p.isBetween first last

/-- The phrase that asks for pieces: numbers alone are looked for in a list. -/
def listPhrase (p : Phrase) (pieces : List Piece) : Phrase :=
  if (pieces.filterMap Piece.range?).isEmpty then p.isIn (pieces.filterMap Piece.number?)
  else match ordered pieces with
    | [] => p
    | first :: more => (joined .or (first.phrase p) (more.map (Piece.phrase p))).enclosed

def Check.phrase (p : Phrase) : Check → Phrase
  | is v => p.against .equal v
  | isNot v => p.against .unequal v
  | among .outside first more => (listPhrase p (first :: more)).negated
  | among _ first more => listPhrase p (first :: more)

/-- Whether a check has code: a range and two numbers are not looked for at once. -/
def Check.isWritable : Check → Bool
  | is _ | isNot _ => true
  | among _ first more =>
    ((first :: more).filterMap Piece.range?).isEmpty ||
      decide (((first :: more).filterMap Piece.number?).length ≤ 1)

namespace Test

def subjectPhrase (t : Test) : Phrase :=
  match t.modulus with
  | none => ⟨[.subject], .subject⟩
  | some k => (against .remainder ⟨[.subject], .subject⟩ k.val).enclosed

def phrase (t : Test) : Phrase := t.check.phrase t.subjectPhrase

def isWritable (t : Test) : Bool := t.check.isWritable

end Test

/-! ## The code of a test is its phrase -/

theorem render_joined (o : Operator) (p : Phrase) (more : List Phrase) :
    render (joined o p more).tokens =
      render p.tokens ++ more.flatMap fun q => o.text.toList ++ render q.tokens := by
  rw [joined, render_append, linkTokens]
  simp only [render, List.flatMap_assoc, List.flatMap_cons, Token.text]

theorem render_against (o : Operator) (p : Phrase) (k : Nat) :
    render (p.against o k).tokens = render p.tokens ++ o.text.toList ++ (toString k).toList := by
  rw [against, render_joined]
  simp [render, Token.text]

theorem render_enclosed (p : Phrase) : render p.enclosed.tokens = '(' :: (render p.tokens ++ [')']) := by
  simp [enclosed, render, Token.text]

theorem render_listTokens {l : List Nat} (hl : l ≠ []) :
    render (listTokens l) = (joinStrings ", " (l.map toString)).toList ++ [']'] := by
  induction l with
  | nil => exact absurd rfl hl
  | cons k l ih =>
    cases l with
    | nil => simp [listTokens, render, Token.text, joinStrings]
    | cons k' l =>
      rw [listTokens, render_cons, render_cons, ih (by simp), List.map_cons, List.map_cons,
        toList_joinStrings_cons, toList_joinStrings_cons]
      · simp [Token.text]
      · simp

theorem toList_subject (t : Test) :
    t.worded.condition.subject.toList = render t.subjectPhrase.tokens := by
  cases hmodulus : t.modulus with
  | none =>
    simp [Test.worded, WordedTest.condition, Test.subjectPhrase, hmodulus, Condition.subject, render,
      Token.text]
  | some k =>
    have hphrase : t.subjectPhrase =
        (against .remainder ⟨[.subject], .subject⟩ k.val).enclosed := by
      simp [Test.subjectPhrase, hmodulus]
    rw [hphrase, render_enclosed, render_against]
    simp [Test.worded, WordedTest.condition, hmodulus, Condition.subject, render, Token.text,
      Operator.text, toString]

theorem isRange_text (i : Item) : isRange i.text = i.piece.range?.isSome := by
  cases i with
  | number k =>
    rw [Bool.eq_iff_iff, isRange, occursIn, occurs_iff]
    refine iff_of_false (fun hdots => ?_) (by simp [Item.piece, Piece.range?])
    have hdot := hdots.subset (by decide : '.' ∈ "..".toList)
    cases k.isDigit _ (k.toList_text ▸ hdot)
  | range first last =>
    rw [Bool.eq_iff_iff, isRange, occursIn, occurs_iff]
    refine iff_of_true ⟨first.text.toList, last.text.toList, ?_⟩ rfl
    simp [Item.text]

theorem isRange_operand (items : List Item) (hne : items ≠ []) :
    isRange (joinStrings "," (items.map Item.text)) =
      !((items.map Item.piece).filterMap Piece.range?).isEmpty := by
  obtain ⟨first, more, rfl⟩ := List.exists_cons_of_ne_nil hne
  rw [Bool.eq_iff_iff, isRange, occursIn, occurs_iff, List.map_cons, toList_joinStrings_cons]
  simp only [Bool.not_eq_true', List.isEmpty_eq_false_iff, ne_eq, List.filterMap_eq_nil_iff,
    List.forall_mem_map]
  constructor
  · intro hdots hnone
    have hdigits : ∀ i ∈ first :: more, ∀ c ∈ i.text.toList, c.isDigit := by
      intro i hi c hc
      cases i with
      | number k => exact k.isDigit c (k.toList_text ▸ hc)
      | range => cases hnone _ hi
    have hdot := hdots.subset (by decide : '.' ∈ "..".toList)
    grind
  · intro hsome
    obtain ⟨i, hi, hrange⟩ : ∃ i ∈ first :: more, i.piece.range?.isSome := by
      by_contra hall
      push Not at hall
      exact hsome fun i hi => by simpa using hall i hi
    have hitem : "..".toList <:+: i.text.toList := by
      rw [← occurs_iff]
      exact (isRange_text i).trans hrange
    rcases List.mem_cons.1 hi with rfl | hi
    · exact hitem.trans (List.infix_append' [] _ _)
    · have hmem : ",".toList ++ i.text.toList ∈
          (more.map Item.text).map fun s => ",".toList ++ s.toList :=
        List.mem_map.2 ⟨_, List.mem_map_of_mem hi, rfl⟩
      have hcomma := List.infix_append' ",".toList i.text.toList []
      rw [List.append_nil] at hcomma
      refine hitem.trans (hcomma.trans ?_)
      refine (List.infix_of_mem_flatten hmem).trans ?_
      exact (List.suffix_append _ _).isInfix

theorem number_text (k : Numeral) : number k.text = .ok (k.value : Int) := by
  rw [number, Numeral.text, integerOfString?_ofList k.ne_nil k.isDigit]
  rfl

/-- The code that asks for one of several pieces. -/
def Piece.code (subject : String) : Piece → String
  | number k => "(" ++ subject ++ " == " ++ toString k ++ ")"
  | range first last =>
    "isBetween(" ++ subject ++ ", " ++ toString first ++ ", " ++ toString last ++ ")"

theorem rangeCode_text (subject : String) (first last : Numeral) :
    rangeCode subject (Item.range first last).text =
      .ok ((Item.range first last).piece.code subject) := by
  have hdot : ∀ k : Numeral, '.' ∉ k.text.toList := by
    intro k hmem
    cases k.isDigit _ (k.toList_text ▸ hmem)
  have hcut : cut? "..".toList (Item.range first last).text.toList =
      some (first.text.toList, last.text.toList) := by
    have htext : (Item.range first last).text.toList =
        first.text.toList ++ ('.' :: ['.'] ++ last.text.toList) := by
      simp [Item.text]
    rw [htext]
    exact cut?_of_not_mem (hdot first) _
  have hnone : occurs "..".toList last.text.toList = false := by
    rw [← Bool.not_eq_true, occurs_iff]
    exact fun hdots => hdot last (hdots.subset (by decide))
  rw [rangeCode, hcut]
  dsimp only
  rw [hnone, if_neg (by simp), ofList_toList, ofList_toList, number_text, number_text]
  rfl

theorem piecesCode_text (subject : String) (items : List Item) :
    piecesCode subject (items.map Item.text) =
      if ((items.map Item.piece).filterMap Piece.number?).length ≤ 1 then
        .ok ((ordered (items.map Item.piece)).map (Piece.code subject))
      else .error .kind := by
  have hresults : (items.map Item.text).mapM (fun piece => do
      if isRange piece then return (some (← rangeCode subject piece), none)
      else return (none, some (← number piece))) =
      .ok ((items.map Item.piece).map fun p =>
        (p.range?.map fun r => (Piece.range r.1 r.2).code subject,
          p.number?.map fun k : Nat => (k : Int))) := by
    rw [List.mapM_map, List.map_map]
    refine mapM_eq_ok fun i _ => ?_
    rw [Function.comp_apply, isRange_text]
    cases i with
    | number k => exact number_text k ▸ rfl
    | range first last =>
      rw [rangeCode_text]
      rfl
  rw [piecesCode, hresults, ok_bind]
  generalize items.map Item.piece = pieces
  have hranges : (pieces.map fun p => (p.range?.map fun r => (Piece.range r.1 r.2).code subject,
      p.number?.map fun k : Nat => (k : Int))).filterMap Prod.fst =
      (pieces.filterMap Piece.range?).map fun r => (Piece.range r.1 r.2).code subject := by
    rw [List.filterMap_map, List.map_filterMap]
    rfl
  have hnumbers : (pieces.map fun p => (p.range?.map fun r => (Piece.range r.1 r.2).code subject,
      p.number?.map fun k : Nat => (k : Int))).filterMap Prod.snd =
      (pieces.filterMap Piece.number?).map fun k : Nat => (k : Int) := by
    rw [List.filterMap_map, List.map_filterMap]
    rfl
  dsimp only
  rw [hranges, hnumbers, ordered, List.map_append, List.map_map, List.map_map]
  cases pieces.filterMap Piece.number? with
  | nil => exact congrArg Except.ok (List.append_nil _).symm
  | cons k more =>
    cases more with
    | nil => rfl
    | cons k' more => rfl

namespace WordedTest

def isWritable (t : WordedTest) : Bool := t.check.isWritable

/-- The code of a test that has one. -/
def code (t : WordedTest) : String :=
  match t.wording with
  | .is v => t.condition.subject ++ " == " ++ v.text
  | .isNot v => t.condition.subject ++ " != " ++ v.text
  | .among word first more =>
    (if word.text = "not in" then "!" else "") ++
      if (((first :: more).map Item.piece).filterMap Piece.range?).isEmpty then
        "isIn(" ++ t.condition.subject ++ ", [" ++
          joinStrings ", " ((first :: more).map Item.text) ++ "])"
      else
        "(" ++ joinStrings " || " ((ordered ((first :: more).map Item.piece)).map
          (Piece.code t.condition.subject)) ++ ")"

end WordedTest

theorem code_condition (t : WordedTest) :
    t.condition.code = if t.isWritable then .ok t.code else .error .kind := by
  have hrelation : t.condition.relation = t.wording.check.relation := rfl
  have hoperand : t.condition.operand = t.wording.operand := rfl
  rw [Condition.code, hrelation, hoperand, WordedTest.isWritable, WordedTest.check, WordedTest.code]
  cases t.wording with
  | is v =>
    rw [Wording.check, Check.relation, if_pos rfl, Check.isWritable, if_pos rfl]
    rfl
  | isNot v =>
    rw [Wording.check, Check.relation, if_neg (by decide), if_pos rfl, Check.isWritable, if_pos rfl]
    rfl
  | among word first more =>
    have hitems : splitString ',' (joinStrings "," ((first :: more).map Item.text)) =
        (first :: more).map Item.text := by
      refine splitString_joinStrings (by simp) fun s hs hcomma => ?_
      obtain ⟨i, -, rfl⟩ := List.mem_map.1 hs
      rcases i.isOperandLetter_of_mem hcomma with h | h
      · cases h
      · exact absurd h (by decide)
    rw [Wording.check, Check.relation, Wording.operand, if_neg (by cases word <;> decide),
      if_neg (by cases word <;> decide), hitems, isRange_operand (first :: more) (by simp),
      Check.isWritable, ← List.map_cons]
    dsimp only
    generalize (if word.text = "not in" then "!" else "" : String) = sign
    cases hranges : (((first :: more).map Item.piece).filterMap Piece.range?).isEmpty with
    | true =>
      rw [if_pos (by simp), if_pos (by simp), if_pos (by simp)]
      exact congrArg Except.ok (by simp [String.append_assoc])
    | false =>
      rw [if_neg (by simp), piecesCode_text, Bool.false_or, if_neg Bool.false_ne_true]
      by_cases hnumbers : (((first :: more).map Item.piece).filterMap Piece.number?).length ≤ 1
      · rw [if_pos hnumbers, if_pos (decide_eq_true hnumbers), ok_bind]
        exact congrArg Except.ok (by simp [String.append_assoc])
      · rw [if_neg hnumbers, if_neg (by simpa using hnumbers)]
        rfl

variable {pieces : List Piece}

theorem eq_map_number (hranges : (pieces.filterMap Piece.range?).isEmpty) :
    (pieces.filterMap Piece.number?).map .number = pieces := by
  rw [List.isEmpty_iff, List.filterMap_eq_nil_iff] at hranges
  rw [List.map_filterMap, List.filterMap_congr (g := some), List.filterMap_some]
  intro p hp
  cases p with
  | number k => rfl
  | range => cases hranges _ hp

theorem numbers_ne_nil (hne : pieces ≠ []) (hranges : (pieces.filterMap Piece.range?).isEmpty) :
    pieces.filterMap Piece.number? ≠ [] := by
  intro h
  have hpieces := eq_map_number hranges
  rw [h] at hpieces
  exact hne hpieces.symm

theorem render_listPhrase_numbers {p : Phrase} (hne : pieces ≠ [])
    (hranges : (pieces.filterMap Piece.range?).isEmpty) :
    render (listPhrase p pieces).tokens =
      "isIn(".toList ++ render p.tokens ++ ", [".toList ++
        (joinStrings ", " (pieces.map Piece.text)).toList ++ "])".toList := by
  have htexts : pieces.map Piece.text = (pieces.filterMap Piece.number?).map toString := by
    conv_lhs => rw [← eq_map_number hranges, List.map_map]
    rfl
  rw [listPhrase, if_pos hranges, htexts]
  simp [isIn, render_append, render_cons, render_listTokens (numbers_ne_nil hne hranges),
    Token.text]
  rfl

theorem toList_code {p : Phrase} (hsubject : subject.toList = render p.tokens)
    (piece : Piece) : (piece.code subject).toList = render (piece.phrase p).tokens := by
  cases piece with
  | number k =>
    rw [Piece.phrase, render_enclosed, render_against]
    show ("(" ++ subject ++ " == " ++ toString k ++ ")").toList = _
    simp [hsubject, Operator.text]
  | range first last =>
    show ("isBetween(" ++ subject ++ ", " ++ toString first ++ ", " ++ toString last ++ ")").toList = _
    simp [Piece.phrase, hsubject, isBetween, render_append, render_cons, Token.text]
    rfl

theorem ordered_ne_nil
    (hranges : (pieces.filterMap Piece.range?).isEmpty = false) : ordered pieces ≠ [] := by
  intro h
  rw [ordered, List.append_eq_nil_iff, List.map_eq_nil_iff] at h
  rw [h.1] at hranges
  cases hranges

theorem render_listPhrase_ranges {p : Phrase} (hsubject : subject.toList = render p.tokens)
    (hranges : (pieces.filterMap Piece.range?).isEmpty = false) :
    render (listPhrase p pieces).tokens =
      '(' :: ((joinStrings " || " ((ordered pieces).map (Piece.code subject))).toList ++ [')']) := by
  rw [listPhrase, hranges, if_neg (by simp)]
  cases hordered : ordered pieces with
  | nil => exact absurd hordered (ordered_ne_nil hranges)
  | cons first more =>
    rw [render_enclosed, render_joined, List.map_cons, toList_joinStrings_cons,
      List.flatMap_map, List.flatMap_map]
    simp [toList_code hsubject, Operator.text]

/-- **The code of a test is its phrase.** -/
theorem toList_code_worded (t : Test) : t.worded.code.toList = render t.phrase.tokens := by
  have hsubject := toList_subject t
  rw [WordedTest.code, Test.phrase]
  generalize t.worded.condition.subject = subject at hsubject
  have hwording : t.worded.wording = t.check.wording := rfl
  rw [hwording]
  cases t.check with
  | is v | isNot v =>
    rw [Check.phrase, render_against, ← hsubject]
    simp [Check.wording, Operator.text]
  | among word first more =>
    have hsign : render ((Check.among word first more).phrase t.subjectPhrase).tokens =
        (if word.text = "not in" then "!" else "" : String).toList ++
          render (listPhrase t.subjectPhrase (first :: more)).tokens := by
      cases word <;> rfl
    have hpieces : (first.item :: more.map Piece.item).map Item.piece = first :: more := by
      simp [Function.comp_def]
    have htexts : (first.item :: more.map Piece.item).map Item.text =
        (first :: more).map Piece.text := by
      simp [Function.comp_def]
    rw [Check.wording]
    dsimp only
    rw [hsign, hpieces, htexts, toList_append]
    cases hranges : ((first :: more).filterMap Piece.range?).isEmpty with
    | true =>
      rw [if_pos rfl, render_listPhrase_numbers (by simp) hranges, ← hsubject]
      simp
    | false =>
      rw [if_neg Bool.false_ne_true, render_listPhrase_ranges hsubject hranges]
      simp

/-! ## Rules as linked tests -/

/-- The words between two tests. -/
inductive Joint where
  | and
  | or
deriving DecidableEq, Repr

def Joint.operator : Joint → Operator
  | and => .and
  | or => .or

def Joint.text : Joint → String
  | and => " and "
  | or => " or "

/-- The words after `or` has been turned into code. -/
def Joint.halfCode : Joint → String
  | and => " and "
  | or => " || "

/-- A test with the word before it. -/
structure Link where
  joint : Joint
  test : WordedTest

def Clause.links (c : Clause) : List Link := c.more.map fun t => ⟨.and, t.worded⟩

def Rule.links (r : Rule) : List Link :=
  r.first.links ++ r.more.flatMap fun c => ⟨.or, c.first.worded⟩ :: c.links

def linked (word : Joint → String) (body : WordedTest → String) (first : WordedTest)
    (links : List Link) : List Char :=
  (body first).toList ++ links.flatMap fun l => (word l.joint).toList ++ (body l.test).toList

/-- Tests with the words between them. -/
def linkedText (first : WordedTest) (links : List Link) : String :=
  ofList (linked Joint.text WordedTest.text first links)

def Clause.phrase (c : Clause) : Phrase := .joined .and c.first.phrase (c.more.map Test.phrase)

def Rule.phrase (r : Rule) : Phrase := .joined .or r.first.phrase (r.more.map Clause.phrase)

theorem linked_cons (word : Joint → String) (body : WordedTest → String) (first : WordedTest)
    (l : Link) (links : List Link) : linked word body first (l :: links) =
      (body first).toList ++ ((word l.joint).toList ++ linked word body l.test links) := by
  simp [linked]

theorem Rule.tests_eq (r : Rule) :
    r.tests.map Test.worded = r.first.first.worded :: r.links.map Link.test := by
  simp [tests, clauses, links, Clause.tests, Clause.links, List.map_flatMap, Function.comp_def]

theorem Rule.text_eq (r : Rule) : r.text = linkedText r.first.first.worded r.links := by
  rw [← toList_inj]
  simp [text, clauses, Clause.text, Clause.tests, links, Clause.links, linkedText, linked,
    Joint.text, toList_joinStrings_cons, List.flatMap_map, List.flatMap_assoc]

theorem Rule.render_phrase (r : Rule) :
    render r.phrase.tokens =
      linked (fun j => j.operator.text) WordedTest.code r.first.first.worded r.links := by
  simp [phrase, Clause.phrase, links, Clause.links, linked, Joint.operator, Operator.text,
    render_joined, toList_code_worded, List.flatMap_map, List.flatMap_assoc]

/-! ## Conversion -/

/-- A text is turned into a result, whatever the bound on its length. -/
def Converts (cs : List Char) (result : Except Defect (List Char)) : Prop :=
  ∀ n, cs.length ≤ n → convert n cs = result.map ofList

theorem Converts.nil : Converts [] (.ok []) := by
  intro n _
  cases n <;> rfl

variable {cs : List Char} {result : Except Defect (List Char)}

theorem Converts.letter (hc : condition? (c :: cs) = none) (h : Converts cs result) :
    Converts (c :: cs) (result.map (c :: ·)) := by
  intro n hn
  obtain ⟨n, rfl⟩ := exists_add_one hn
  rw [convert, hc]
  dsimp only
  rw [h n (by simpa using hn)]
  cases result with
  | error e => rfl
  | ok l => exact congrArg Except.ok (toList_inj.1 (by simp))

theorem Converts.joint (j : Joint) (h : Converts cs result) :
    Converts (j.text.toList ++ cs) (result.map (j.text.toList ++ ·)) := by
  cases j with
  | and =>
    have hall := (((h.letter (c := ' ') rfl).letter (c := 'd') rfl).letter (c := 'n') rfl).letter
      (c := 'a') rfl |>.letter (c := ' ') rfl
    cases result <;> exact hall
  | or =>
    have hall := ((h.letter (c := ' ') rfl).letter (c := 'r') rfl).letter (c := 'o') rfl
      |>.letter (c := ' ') rfl
    cases result <;> exact hall

theorem Converts.test (t : WordedTest) (hcs : Ends cs) (h : Converts cs result) :
    Converts (t.text.toList ++ cs)
      (if t.isWritable then result.map (t.code.toList ++ ·) else .error .kind) := by
  intro n hn
  obtain ⟨w, hw⟩ : ∃ w, t.text.toList = 'n' :: w := by
    cases hmodulus : t.modulus with
    | none => exact ⟨_, by simp [WordedTest.text, WordedTest.subjectText, hmodulus]; rfl⟩
    | some k => exact ⟨_, by simp [WordedTest.text, WordedTest.subjectText, hmodulus]; rfl⟩
  have hcondition := condition?_text t hcs
  rw [hw] at hcondition hn
  rw [List.length_append, List.length_cons] at hn
  obtain ⟨n, rfl⟩ := exists_add_one (show 0 < n by omega)
  rw [List.cons_append] at hcondition
  rw [hw, List.cons_append, convert, hcondition]
  dsimp only
  rw [h n (by omega), code_condition]
  cases t.isWritable with
  | false => rfl
  | true =>
    cases result with
    | error e => rfl
    | ok l => exact congrArg Except.ok (toList_inj.1 (by simp))

/-- **Linked tests are turned into their code, each at its place, unless one has none.** -/
theorem converts_linked (first : WordedTest) (links : List Link) :
    Converts (linked Joint.text WordedTest.text first links)
      (if (first :: links.map Link.test).all WordedTest.isWritable then
        .ok (linked Joint.text WordedTest.code first links) else .error .kind) := by
  induction links generalizing first with
  | nil =>
    have htest := Converts.nil.test first (fun c hc => by cases hc)
    simpa [linked, Except.map] using htest
  | cons l links ih =>
    have hends : Ends (l.joint.text.toList ++ linked Joint.text WordedTest.text l.test links) := by
      cases l.joint <;> exact ends_blank _
    have htest := ((ih l.test).joint l.joint).test first hends
    rw [linked_cons, linked_cons, List.map_cons, List.all_cons]
    cases hfirst : first.isWritable <;>
      cases hmore : (l.test :: links.map Link.test).all WordedTest.isWritable <;>
      simpa [hfirst, hmore, Except.map] using htest

/-! ## The words between tests -/

theorem replace_linked {more by_ : List Char} {word word' : Joint → String}
    {body : WordedTest → String}
    (hword : ∀ j rest, replace (c :: more) by_ ((word j).toList ++ rest) =
      (word' j).toList ++ replace (c :: more) by_ rest) (first : WordedTest) (links : List Link)
    (hbody : ∀ t ∈ first :: links.map Link.test, c ∉ (body t).toList) :
    replace (c :: more) by_ (linked word body first links) = linked word' body first links := by
  induction links generalizing first with
  | nil => simpa [linked] using replace_of_not_mem (hbody first List.mem_cons_self)
  | cons l links ih =>
    rw [linked_cons, linked_cons, replace_append_of_not_mem (hbody first List.mem_cons_self), hword,
      ih l.test fun t ht => hbody t (List.mem_cons_of_mem _ ht)]

theorem not_mem_text (hc : c = 'o' ∨ c = 'a') (t : Token) : c ∉ t.text.toList := by
  cases t with
  | number k =>
    intro hmem
    have hdigit := isDigit_of_mem_toString hmem
    rcases hc with rfl | rfl <;> cases hdigit
  | operator o => rcases hc with rfl | rfl <;> cases o <;> decide
  | _ => rcases hc with rfl | rfl <;> decide

/-- Code has none of the letters with which the words between tests start. -/
theorem not_mem_render (hc : c = 'o' ∨ c = 'a') (ts : List Token) : c ∉ render ts := by
  intro hmem
  obtain ⟨t, -, ht⟩ := List.mem_flatMap.1 hmem
  exact not_mem_text hc t ht

theorem replace_between_blanks {more by_ : List Char} (hc : c ≠ ' ') (rest : List Char) :
    replace (c :: more) by_ (' ' :: (c :: more ++ ' ' :: rest)) =
      ' ' :: (by_ ++ ' ' :: replace (c :: more) by_ rest) := by
  have hblank : ∀ l, replace (c :: more) by_ (' ' :: l) = ' ' :: replace (c :: more) by_ l := fun l =>
    replace_append_of_not_mem (l := [' ']) (by simpa using hc) l
  rw [hblank, replace_append_pattern, hblank]

theorem replace_words (first : WordedTest) (links : List Link)
    (hcode : ∀ t ∈ first :: links.map Link.test, 'o' ∉ t.code.toList ∧ 'a' ∉ t.code.toList) :
    replace "and".toList "&&".toList (replace "or".toList "||".toList
      (linked Joint.text WordedTest.code first links)) =
      linked (fun j => j.operator.text) WordedTest.code first links := by
  have hor : replace "or".toList "||".toList (linked Joint.text WordedTest.code first links) =
      linked Joint.halfCode WordedTest.code first links :=
    replace_linked (by
      intro j rest
      cases j with
      | and => exact replace_append_of_not_mem (l := " and ".toList) (by decide) rest
      | or => exact replace_between_blanks (by decide) rest) first links fun t ht => (hcode t ht).1
  have hand : replace "and".toList "&&".toList (linked Joint.halfCode WordedTest.code first links) =
      linked (fun j => j.operator.text) WordedTest.code first links :=
    replace_linked (by
      intro j rest
      cases j with
      | or => exact replace_append_of_not_mem (l := " || ".toList) (by decide) rest
      | and => exact replace_between_blanks (by decide) rest) first links fun t ht => (hcode t ht).2
  exact (congrArg _ hor).trans hand

/-! ## Small letters -/

/-- Whether a letter stays as it is in lower case. -/
def isSmall (c : Char) : Bool := lowerChar c = [c]

theorem isSmall_of_isOperandLetter (h : isOperandLetter c) : isSmall c := by
  simp only [isOperandLetter, Bool.or_eq_true, decide_eq_true_eq] at h
  rcases h with (hdigit | rfl) | rfl
  · obtain ⟨-, hhigh⟩ := toNat_of_isDigit hdigit
    have hupper : c.toLower = c := by
      refine dif_neg fun h => ?_
      have hlow := UInt32.le_iff_toNat_le.1 h.1
      exact absurd (Nat.le_trans hlow hhigh) (by decide)
    rw [isSmall, lowerChar, if_pos (by omega), hupper]
    simp
  · decide
  · decide

theorem WordedTest.all_isSmall (t : WordedTest) : t.text.toList.all isSmall := by
  have hsubject : t.subjectText.toList.all isSmall := by
    unfold subjectText
    cases t.modulus with
    | none => decide
    | some k =>
      have hdigits : k.text.toList.all isSmall := List.all_eq_true.2 fun c hc =>
        isSmall_of_isOperandLetter (by simp [isOperandLetter, k.isDigit c (k.toList_text ▸ hc)])
      dsimp only
      rw [toList_append, List.all_append, hdigits]
      decide
  have hrelation : t.check.relation.toList.all isSmall := by
    cases t.check with
    | is v | isNot v => rw [Check.relation]; decide
    | among word first more => cases word <;> rw [Check.relation] <;> decide
  have hoperand : t.wording.operand.toList.all isSmall :=
    List.all_eq_true.2 fun c hc => isSmall_of_isOperandLetter (Wording.isOperandLetter_of_mem hc)
  have hblank : " ".toList.all isSmall := by decide
  simp only [text, toList_append, List.all_append, hsubject, hrelation, hoperand, hblank,
    Bool.and_self]

theorem lower_linkedText (first : WordedTest) (links : List Link) :
    lower (linkedText first links) = linkedText first links := by
  have hall : (linkedText first links).toList.all isSmall := by
    have hjoint : ∀ j : Joint, j.text.toList.all isSmall := by
      intro j
      cases j <;> decide
    rw [linkedText, toList_ofList, linked, List.all_append, WordedTest.all_isSmall, Bool.true_and,
      List.all_eq_true]
    intro c hc
    obtain ⟨l, -, hc⟩ := List.mem_flatMap.1 hc
    rcases List.mem_append.1 hc with hc | hc
    · exact List.all_eq_true.1 (hjoint _) c hc
    · exact List.all_eq_true.1 l.test.all_isSmall c hc
  have hsmall : ∀ c ∈ (linkedText first links).toList, lowerChar c = [c] := fun c hc =>
    of_decide_eq_true (List.all_eq_true.1 hall c hc)
  rw [lower, lowerFrom_eq_self hsmall, ofList_toList]

/-! ## Which rules have code -/

theorem ruleCode_linkedText (first : WordedTest) (links : List Link) :
    ruleCode (linkedText first links) =
      if (first :: links.map Link.test).all WordedTest.isWritable then
        .ok (replaceString "and" "&&" (replaceString "or" "||"
          (ofList (linked Joint.text WordedTest.code first links))))
      else .error .kind := by
  have hconvert := converts_linked first links _ (Nat.le_refl _)
  rw [ruleCode, lower_linkedText, linkedText, toList_ofList, hconvert]
  cases (first :: links.map Link.test).all WordedTest.isWritable <;> rfl

/-- **A rule has code unless one of its tests asks for a range and for several numbers at once**,
whatever the order of its lists and however its numbers are written. -/
theorem ruleCode_accepts (first : WordedTest) (links : List Link) :
    ((∃ code, ruleCode (linkedText first links) = .ok code) ↔
        ∀ t ∈ first :: links.map Link.test, t.isWritable) ∧
      (ruleCode (linkedText first links) = .error .kind ↔
        ∃ t ∈ first :: links.map Link.test, ¬t.isWritable) := by
  rw [ruleCode_linkedText, ← List.all_eq_true, ← List.all_eq_false]
  cases (first :: links.map Link.test).all WordedTest.isWritable <;> simp

/-- A range and two numbers are refused. -/
theorem ruleCode_range_and_numbers :
    linkedText ⟨none, .among .inside (.range (.ofNat 1) (.ofNat 3))
        [.number (.ofNat 5), .number (.ofNat 7)]⟩ [] = "n in 1..3,5,7" ∧
      ruleCode "n in 1..3,5,7" = .error .kind := by
  decide

/-- **The code of a rule is its phrase**, if all its tests have code. -/
theorem ruleCode_text (r : Rule) :
    ruleCode r.text =
      if r.tests.all Test.isWritable then .ok (ofList (render r.phrase.tokens))
      else .error .kind := by
  have htests : (r.first.first.worded :: r.links.map Link.test).all WordedTest.isWritable =
      r.tests.all Test.isWritable := by
    rw [← r.tests_eq, List.all_map]
    exact congrArg r.tests.all (funext fun t => congrArg Check.isWritable t.check_worded)
  have hwords := replace_words r.first.first.worded r.links (by
    rw [← r.tests_eq, List.forall_mem_map]
    intro t _
    rw [toList_code_worded]
    exact ⟨not_mem_render (.inl rfl) _, not_mem_render (.inr rfl) _⟩)
  rw [r.text_eq, ruleCode_linkedText, htests, r.render_phrase, ← hwords]
  simp [replaceString]

/-! ## Phrases are read and hold as they should -/

/-- The tokens of a phrase are read back as it, and no two of them run together. -/
structure Written (height : Nat) (p : Phrase) : Prop where
  reads : p.Reads height
  apart : Apart p.tokens

namespace Written

variable {height : Nat} {p : Phrase}

theorem up (h : Written height p) {high : Nat} (hle : height ≤ high) : Written high p :=
  ⟨h.reads.up hle, h.apart⟩

theorem joined (hp : Written height p) {o : Operator} (ho : o.height = height + 1)
    {more : List Phrase} (h : ∀ q ∈ more, Written height q) :
    Written (height + 1) (.joined o p more) :=
  ⟨hp.reads.joined ho fun q hq => (h q hq).reads,
    apart_joined o hp.apart fun q hq => (h q hq).apart⟩

theorem against (hp : Written height p) {o : Operator} (ho : o.height = height + 1) (k : Nat) :
    Written (height + 1) (p.against o k) :=
  hp.joined ho (by simpa using Written.up ⟨reads_number k, apart_single _⟩ (Nat.zero_le _))

theorem enclosed (hp : Written top p) : Written 0 p.enclosed :=
  ⟨hp.reads.enclosed, Apart.glue (a := []) .nil rfl (hp.apart.glue rfl .nil)⟩

theorem negated (hp : Written 0 p) : Written 0 p.negated :=
  ⟨hp.reads.negated, Apart.glue (a := []) .nil rfl hp.apart⟩

theorem isBetween (hp : Written top p) (first last : Nat) : Written 0 (p.isBetween first last) :=
  ⟨hp.reads.isBetween first last, Apart.glue (apart_single _) rfl (hp.apart.glue rfl
    (Apart.glue (apart_single _) rfl (Apart.glue (apart_single _) rfl .nil)))⟩

theorem apart_listTokens (l : List Nat) : Apart (listTokens l) := by
  induction l with
  | nil => exact apart_single _
  | cons k l ih =>
    cases l with
    | nil => exact Apart.glue (apart_single _) rfl .nil
    | cons k' l => exact Apart.glue (apart_single _) rfl ih

theorem isIn (hp : Written top p) {l : List Nat} (hl : l ≠ []) : Written 0 (p.isIn l) :=
  ⟨hp.reads.isIn hl, Apart.glue (apart_single _) rfl (hp.apart.glue rfl (Apart.glue (a := []) .nil rfl
    ((apart_listTokens l).glue rfl .nil)))⟩

theorem piece (hp : Written 0 p) (piece : Piece) : Written 0 (piece.phrase p) := by
  cases piece with
  | number k => exact (((hp.up (Nat.zero_le 1)).against rfl k).up (by decide)).enclosed
  | range first last => exact (hp.up (Nat.zero_le _)).isBetween first last

theorem listPhrase (hp : Written 0 p) {pieces : List Piece} (hne : pieces ≠ []) :
    Written 0 (listPhrase p pieces) := by
  unfold RuleScript.listPhrase
  split
  · exact (hp.up (Nat.zero_le _)).isIn (numbers_ne_nil hne ‹_›)
  · split
    · exact hp
    · rename_i first more _
      have hjoined : Written top (Phrase.joined .or (first.phrase p) (more.map (Piece.phrase p))) := by
        refine joined ((hp.piece first).up (Nat.zero_le _)) rfl fun q hq => ?_
        obtain ⟨piece, -, rfl⟩ := List.mem_map.1 hq
        exact (hp.piece piece).up (Nat.zero_le _)
      exact enclosed hjoined

theorem test (t : Test) : Written 2 t.phrase := by
  have hsubject : Written 0 t.subjectPhrase := by
    have hn : Written 0 ⟨[.subject], .subject⟩ := ⟨reads_subject, apart_single _⟩
    unfold Test.subjectPhrase
    split
    · exact hn
    · exact ((hn.against rfl _).up (by decide)).enclosed
  unfold Test.phrase
  cases t.check with
  | is v | isNot v => exact (hsubject.up (Nat.zero_le 1)).against rfl v
  | among word first more =>
    have hlist := hsubject.listPhrase (List.cons_ne_nil first more)
    cases word with
    | outside => exact hlist.negated.up (Nat.zero_le _)
    | inside | within => exact hlist.up (Nat.zero_le _)

theorem rule (r : Rule) : Written top r.phrase := by
  have hclause : ∀ c : Clause, Written 3 c.phrase := by
    intro c
    refine (test c.first).joined rfl fun q hq => ?_
    obtain ⟨t, -, rfl⟩ := List.mem_map.1 hq
    exact test t
  refine (hclause r.first).joined rfl fun q hq => ?_
  obtain ⟨c, -, rfl⟩ := List.mem_map.1 hq
  exact hclause c

end Written

theorem any_ordered (has : Piece → Bool) (pieces : List Piece) :
    (ordered pieces).any has = pieces.any has := by
  induction pieces with
  | nil => rfl
  | cons p pieces ih =>
    rw [List.any_cons, ← ih]
    cases p with
    | number k => simp [ordered, Piece.range?, Piece.number?, Bool.or_left_comm]
    | range first last => simp [ordered, Piece.range?, Piece.number?]

theorem mem_ordered {piece : Piece} {pieces : List Piece} :
    piece ∈ ordered pieces ↔ piece ∈ pieces := by
  have hany := any_ordered (· == piece) pieces
  grind

section Values

variable {p : Phrase} {n m : Nat} (hp : p.expression.value n = some (.number (.ofNat m)))
  (hm : IsExact m)

include hp hm

theorem value_against_equal {k : Nat} (hk : IsExact k) :
    (p.against .equal k).expression.value n = some (.truth (m == k)) := by
  simp [against, joined, chained, Expression.value, hp, Operator.apply, hm.same_eq hk]

theorem value_piece {piece : Piece} (h : ∀ k ∈ piece.numbers, IsExact k) :
    (piece.phrase p).expression.value n = some (.truth (piece.has m)) := by
  cases piece with
  | number k => exact value_against_equal hp hm (h k (by simp [Piece.numbers]))
  | range first last =>
    have hfirst := h first (by simp [Piece.numbers])
    have hlast := h last (by simp [Piece.numbers])
    simp [Piece.phrase, isBetween, Expression.value, hp, Piece.has, hfirst.le_eq hm, hm.le_eq hlast]

theorem value_listPhrase {pieces : List Piece} (h : ∀ k ∈ pieces.flatMap Piece.numbers, IsExact k) :
    (listPhrase p pieces).expression.value n = some (.truth (pieces.any (Piece.has m))) := by
  have hpieces : ∀ piece ∈ pieces, ∀ k ∈ piece.numbers, IsExact k :=
    fun piece hpiece k hk => h k (List.mem_flatMap.2 ⟨piece, hpiece, hk⟩)
  unfold listPhrase
  split
  case isTrue hranges =>
    conv_rhs => rw [← eq_map_number hranges, List.any_map]
    have hsame : ∀ k ∈ pieces.filterMap Piece.number?, (Binary64.ofNat m).same (.ofNat k) = (m == k) := by
      intro k hk
      obtain ⟨piece, hpiece, hnumber⟩ := List.mem_filterMap.1 hk
      cases piece with
      | number k' =>
        cases hnumber
        exact hm.same_eq (hpieces _ hpiece k (by simp [Piece.numbers]))
      | range => cases hnumber
    simp only [isIn, Expression.value, hp]
    refine congrArg (some ∘ Script.Value.truth) (Bool.eq_iff_iff.2 ?_)
    rw [List.any_eq_true, List.any_eq_true]
    exact exists_congr fun k => and_congr_right fun hk => by rw [hsame k hk]; rfl
  case isFalse hranges =>
    rw [← any_ordered]
    split
    case h_1 hordered => exact absurd hordered (ordered_ne_nil (by simpa using hranges))
    case h_2 first more hordered =>
      rw [hordered]
      exact value_joined_or (f := Piece.phrase p) fun piece hpiece =>
        value_piece hp hm (hpieces piece (mem_ordered.1 (hordered ▸ hpiece)))

end Values

/-- The code of a test has its meaning for exact numbers. -/
theorem Test.value_phrase {t : Test} {n : Nat} (hn : IsExact n) (h : ∀ k ∈ t.numbers, IsExact k) :
    t.phrase.expression.value n = some (.truth (t.holds n)) := by
  have hcheck : ∀ k ∈ t.check.numbers, IsExact k := fun k hk => h k (List.mem_append_right _ hk)
  obtain ⟨hsubject, hexact⟩ : t.subjectPhrase.expression.value n =
      some (.number (.ofNat (t.subject n))) ∧ IsExact (t.subject n) := by
    unfold subjectPhrase subject
    cases hmodulus : t.modulus with
    | none => exact ⟨rfl, hn⟩
    | some k =>
      have hk : IsExact k.val := h k.val (by simp [numbers, hmodulus])
      exact ⟨congrArg (some ∘ Script.Value.number) (hn.remainder_eq hk k.property), hn.mod hk⟩
  unfold phrase holds
  cases hshape : t.check with
  | is v => exact value_against_equal hsubject hexact (hcheck v (by simp [hshape, Check.numbers]))
  | isNot v =>
    have hv := hcheck v (by simp [hshape, Check.numbers])
    simp [Check.phrase, against, joined, chained, Expression.value, hsubject, Operator.apply,
      Check.holds, hexact.same_eq hv, bne]
  | among word first more =>
    have hpieces : ∀ k ∈ (first :: more).flatMap Piece.numbers, IsExact k :=
      fun k hk => hcheck k (by rwa [hshape])
    have hlist := value_listPhrase hsubject hexact hpieces
    cases word with
    | outside => simp only [Check.phrase, negated, Expression.value, hlist, Check.holds]
    | inside | within => exact hlist

theorem Rule.value_phrase {r : Rule} {n : Nat} (hn : IsExact n)
    (h : ∀ t ∈ r.tests, ∀ k ∈ t.numbers, IsExact k) :
    r.phrase.expression.value n = some (.truth (r.holds n)) :=
  value_joined_or (v := Clause.holds n) fun c hc =>
    value_joined_and (v := Test.holds n) fun t ht =>
      t.value_phrase hn (h t (List.mem_flatMap.2 ⟨c, hc, ht⟩))

/-- **Rules keep their meaning as code.**  A rule has code unless one of its tests asks for a range and
for several numbers at once.  The code is an expression that holds for a number exactly if the rule
does, as long as this number and those of the rule are doubles. -/
theorem ruleCode_meaning (r : Rule) :
    ((∃ code, ruleCode r.text = .ok code) ↔ ∀ t ∈ r.tests, t.isWritable = true) ∧
      ∀ code, ruleCode r.text = .ok code → ∃ e, read? code = some e ∧
        ∀ n, IsExact n → (∀ t ∈ r.tests, ∀ k ∈ t.numbers, IsExact k) →
          e.value n = some (.truth (r.holds n)) := by
  rw [ruleCode_text, ← List.all_eq_true]
  cases r.tests.all Test.isWritable with
  | false => simp
  | true =>
    refine ⟨by simp, fun code hcode => ?_⟩
    obtain rfl := Except.ok.inj hcode
    exact ⟨r.phrase.expression, (Written.rule r).reads.read? (Written.rule r).apart,
      fun _ hn h => r.value_phrase hn h⟩

/-- A rule that compares a number with another one. -/
def isRule (v : Nat) : Rule := ⟨⟨⟨none, .is v⟩, []⟩, []⟩

/-- A number beyond `2 ^ 53` that is a double. -/
theorem ruleCode_meaning_even : ∃ code e, ruleCode (isRule 9007199254740994).text = .ok code ∧
    read? code = some e ∧ e.value 9007199254740994 = some (.truth true) := by
  obtain ⟨hcode, hmeaning⟩ := ruleCode_meaning (isRule 9007199254740994)
  obtain ⟨code, hcode⟩ := hcode.2 (by decide)
  obtain ⟨e, he, hvalue⟩ := hmeaning code hcode
  have hexact : IsExact 9007199254740994 := by decide +kernel
  exact ⟨code, e, hcode, he, hvalue _ hexact (by simp [isRule, Rule.tests, Rule.clauses,
    Clause.tests, Test.numbers, Check.numbers, hexact])⟩

/-- A number that is no double is taken for its neighbour. -/
theorem ruleCode_of_odd : ∃ code e, ruleCode (isRule 9007199254740993).text = .ok code ∧
    read? code = some e ∧ e.value 9007199254740992 = some (.truth true) ∧
    (isRule 9007199254740993).holds 9007199254740992 = false := by
  have hexact : IsExact 9007199254740992 := isExact_of_le (by decide)
  have hnearest : Binary64.ofNat 9007199254740993 = .ofNat 9007199254740992 := by decide +kernel
  have hsame : (Binary64.ofNat 9007199254740992).same (.ofNat 9007199254740993) = true := by
    rw [hnearest, hexact.same_eq hexact]
    rfl
  refine ⟨_, _, ruleCode_text _, (Written.rule _).reads.read? (Written.rule _).apart, ?_, by decide⟩
  exact congrArg (some ∘ Script.Value.truth) hsame

example : ruleCode "n mod 10 not in 2..4,9 or n is 0" =
    .ok "!(isBetween((n % 10), 2, 4) || ((n % 10) == 9)) || n == 0" := by decide +kernel

end AddonBuilder.Locale.RuleScript
