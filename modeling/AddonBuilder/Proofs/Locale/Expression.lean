import AddonBuilder.Proofs.Json.Digits
import AddonBuilder.Proofs.Number.Exact
import AddonBuilder.Proofs.Text.Search
import Mathlib.Data.List.Chain

/-!
# Expressions of a rule script

The conditions in a script of plural rules are expressions over one number `n`, read here as a
script engine reads them.
-/

namespace AddonBuilder.Locale.Script

open List Option

/-- The binary operators that the scripts use. -/
inductive Operator where
  | remainder
  | equal
  | unequal
  | and
  | or
deriving DecidableEq, Repr

/-- The lower an operator stands, the closer it binds. -/
def Operator.height : Operator → Nat
  | remainder => 1
  | equal | unequal => 2
  | and => 3
  | or => 4

/-- The height of a whole expression. -/
def top : Nat := 4

/-- A token of a script. -/
inductive Token where
  | subject
  | number (k : Nat)
  | isIn
  | isBetween
  | operator (o : Operator)
  | not
  | opening
  | closing
  | listOpening
  | listClosing
  | comma
deriving DecidableEq, Repr

/-! ## Cutting a text into tokens -/

def isWordLetter (c : Char) : Bool := c.isAlphanum || c = '_' || c = '$'

/-- The token that a word or a number is.  Numbers have no leading zeros. -/
def word? (word : List Char) : Option Token :=
  if word.all Char.isDigit then
    if word.head? = some '0' && word.length ≠ 1 then none
    else some (.number (Nat.ofDigitChars 10 word 0))
  else if word = ['n'] then some .subject
  else if word = "isIn".toList then some .isIn
  else if word = "isBetween".toList then some .isBetween
  else none

/-- A token that is no word at the start of a text. -/
def symbol? : List Char → Option (Token × List Char)
  | '=' :: '=' :: rest => some (.operator .equal, rest)
  | '!' :: '=' :: rest => some (.operator .unequal, rest)
  | '&' :: '&' :: rest => some (.operator .and, rest)
  | '|' :: '|' :: rest => some (.operator .or, rest)
  | '%' :: rest => some (.operator .remainder, rest)
  | '!' :: rest => some (.not, rest)
  | '(' :: rest => some (.opening, rest)
  | ')' :: rest => some (.closing, rest)
  | '[' :: rest => some (.listOpening, rest)
  | ']' :: rest => some (.listClosing, rest)
  | ',' :: rest => some (.comma, rest)
  | _ => none

/-- The tokens of a text; the number is greater than its length. -/
def lex : Nat → List Char → Option (List Token)
  | 0, _ => none
  | _ + 1, [] => some []
  | n + 1, c :: rest =>
    if c = ' ' then lex n rest
    else if isWordLetter c then do
      let t ← word? ((c :: rest).takeWhile isWordLetter)
      return t :: (← lex n ((c :: rest).dropWhile isWordLetter))
    else do
      let (t, rest) ← symbol? (c :: rest)
      return t :: (← lex n rest)

/-! ## Reading tokens -/

/-- A script as its reader takes it apart. -/
inductive Expression where
  | subject
  | number (k : Nat)
  | isIn (e : Expression) (list : List Nat)
  | isBetween (e : Expression) (first last : Nat)
  | not (e : Expression)
  | binary (o : Operator) (a b : Expression)
deriving DecidableEq, Repr

/-- The numbers of a list up to its closing bracket. -/
def numbers? : List Token → Option (List Nat × List Token)
  | .number k :: .listClosing :: rest => some ([k], rest)
  | .number k :: .comma :: rest => (numbers? rest).map fun (l, rest) => (k :: l, rest)
  | _ => none

mutual

/-- An expression without an operator at its top. -/
def operand? : Nat → List Token → Option (Expression × List Token)
  | 0, _ => none
  | n + 1, ts =>
    match ts with
    | .subject :: rest => some (.subject, rest)
    | .number k :: rest => some (.number k, rest)
    | .not :: rest => (operand? n rest).map fun (e, rest) => (.not e, rest)
    | .opening :: rest =>
      match expression? n top rest with
      | some (e, .closing :: rest) => some (e, rest)
      | _ => none
    | .isIn :: .opening :: rest =>
      match expression? n top rest with
      | some (e, .comma :: .listOpening :: rest) =>
        match numbers? rest with
        | some (l, .closing :: rest) => some (.isIn e l, rest)
        | _ => none
      | _ => none
    | .isBetween :: .opening :: rest =>
      match expression? n top rest with
      | some (e, .comma :: .number a :: .comma :: .number b :: .closing :: rest) =>
        some (.isBetween e a b, rest)
      | _ => none
    | _ => none

def expression? : Nat → Nat → List Token → Option (Expression × List Token)
  | 0, _, _ => none
  | n + 1, 0, ts => operand? n ts
  | n + 1, height + 1, ts => do
    let (a, rest) ← expression? n height ts
    chain? n height a rest

/-- What follows an expression in a chain; the operators stand one higher than the expressions. -/
def chain? : Nat → Nat → Expression → List Token → Option (Expression × List Token)
  | 0, _, _, _ => none
  | n + 1, height, a, ts =>
    match ts with
    | .operator o :: rest =>
      if o.height = height + 1 then do
        let (b, rest) ← expression? n height rest
        chain? n height (.binary o a b) rest
      else some (a, ts)
    | _ => some (a, ts)

end

def form? (ts : List Token) : Option Expression :=
  match expression? (6 * ts.length + 6) top ts with
  | some (e, []) => some e
  | _ => none

/-- Reads a script. -/
def read? (code : String) : Option Expression := do form? (← lex (code.length + 1) code.toList)

/-! ## Values -/

/-- What an expression comes to. -/
inductive Value where
  | number (x : Binary64)
  | truth (b : Bool)
deriving DecidableEq, Repr

/-- What an operator makes of two values of the right kind. -/
def Operator.apply : Operator → Value → Value → Option Value
  | remainder, .number x, .number y => some (.number (x.remainder y))
  | equal, .number x, .number y => some (.truth (x.same y))
  | unequal, .number x, .number y => some (.truth !(x.same y))
  | and, .truth a, .truth b => some (.truth (a && b))
  | or, .truth a, .truth b => some (.truth (a || b))
  | _, _, _ => none

/-- The value of an expression where a number is given for its subject.  Numbers are taken for the
nearest doubles. -/
def Expression.value (n : Nat) : Expression → Option Value
  | subject => some (.number (.ofNat n))
  | number k => some (.number (.ofNat k))
  | isIn e list =>
    match e.value n with
    | some (.number x) => some (.truth (list.any fun k => x.same (.ofNat k)))
    | _ => none
  | isBetween e first last =>
    match e.value n with
    | some (.number x) => some (.truth (Binary64.le (.ofNat first) x && x.le (.ofNat last)))
    | _ => none
  | not e =>
    match e.value n with
    | some (.truth b) => some (.truth !b)
    | _ => none
  | binary o a b => do o.apply (← a.value n) (← b.value n)

/-! ## Rendered tokens are found again -/

def Operator.text : Operator → String
  | remainder => " % "
  | equal => " == "
  | unequal => " != "
  | and => " && "
  | or => " || "

def Token.text : Token → String
  | subject => "n"
  | number k => toString k
  | isIn => "isIn"
  | isBetween => "isBetween"
  | operator o => o.text
  | not => "!"
  | opening => "("
  | closing => ")"
  | listOpening => "["
  | listClosing => "]"
  | comma => ", "

def render (ts : List Token) : List Char := ts.flatMap fun t => t.text.toList

def Token.isWord : Token → Bool
  | subject | number _ | isIn | isBetween => true
  | _ => false

/-- No two words stand side by side. -/
def Apart (ts : List Token) : Prop := ts.IsChain fun a b => a.isWord = false ∨ b.isWord = false

theorem render_append (a b : List Token) : render (a ++ b) = render a ++ render b :=
  flatMap_append

theorem render_cons (t : Token) (ts : List Token) : render (t :: ts) = t.text.toList ++ render ts := rfl

theorem Apart.glue {a b : List Token} {t : Token} (ha : Apart a) (ht : t.isWord = false)
    (hb : Apart b) : Apart (a ++ t :: b) := by
  refine isChain_append.2 ⟨ha, isChain_cons.2 ⟨fun _ _ => .inl ht, hb⟩, ?_⟩
  intro _ _ u hu
  obtain rfl := some.inj hu
  exact .inr ht

theorem apart_single (t : Token) : Apart [t] := isChain_singleton t

/-- A text is cut into the given tokens. -/
def Spells (cs : List Char) (ts : List Token) : Prop := ∀ n, cs.length < n → lex n cs = some ts

variable {cs rest : List Char} {ts : List Token}

theorem exists_add_one {k n : Nat} (h : k < n) : ∃ m, n = m + 1 :=
  Nat.exists_eq_add_one.2 (Nat.zero_lt_of_lt h)

theorem Spells.nil : Spells [] [] := by
  intro n hn
  obtain ⟨n, rfl⟩ := exists_add_one hn
  rfl

theorem Spells.blank (h : Spells cs ts) : Spells (' ' :: cs) ts := by
  intro n hn
  obtain ⟨n, rfl⟩ := exists_add_one hn
  rw [lex, if_pos rfl]
  exact h n (by simpa using hn)

theorem Spells.symbol {c : Char} {t : Token} (hc : isWordLetter c = false) (hblank : c ≠ ' ')
    (ht : symbol? (c :: cs) = some (t, rest)) (hlen : rest.length ≤ cs.length)
    (h : Spells rest ts) : Spells (c :: cs) (t :: ts) := by
  intro n hn
  obtain ⟨n, rfl⟩ := exists_add_one hn
  rw [length_cons] at hn
  rw [lex, if_neg hblank, hc, if_neg (by simp), ht, bind_eq_bind, bind_some]
  dsimp only
  rw [h n (by omega)]
  rfl

theorem Spells.word {w : List Char} {t : Token} (hw : ∀ c ∈ w, isWordLetter c) (hne : w ≠ [])
    (ht : word? w = some t) (hrest : ∀ c ∈ rest.head?, isWordLetter c = false)
    (h : Spells rest ts) : Spells (w ++ rest) (t :: ts) := by
  intro n hn
  obtain ⟨n, rfl⟩ := exists_add_one hn
  obtain ⟨c, w, rfl⟩ := exists_cons_of_ne_nil hne
  have hrest' : rest.takeWhile isWordLetter = [] ∧ rest.dropWhile isWordLetter = rest := by
    cases rest with
    | nil => exact ⟨rfl, rfl⟩
    | cons d rest => simp [hrest d rfl]
  have hblank : c ≠ ' ' := by
    rintro rfl
    exact absurd (hw ' ' mem_cons_self) (by decide)
  have htake : (c :: w ++ rest).takeWhile isWordLetter = c :: w ++ rest.takeWhile isWordLetter :=
    takeWhile_append_of_pos hw
  have hdrop : (c :: w ++ rest).dropWhile isWordLetter = rest.dropWhile isWordLetter :=
    dropWhile_append_of_pos hw
  rw [hrest'.1, append_nil, cons_append] at htake
  rw [hrest'.2, cons_append] at hdrop
  rw [cons_append, lex, if_neg hblank, hw c mem_cons_self, if_pos rfl, htake, ht, hdrop,
    bind_eq_bind, bind_some, h n (by simp at hn; omega)]
  rfl

theorem isWordLetter_of_isDigit {c : Char} (h : c.isDigit) : isWordLetter c := by
  simp [isWordLetter, Char.isAlphanum, h]

theorem word?_number (k : Nat) : word? (toString k).toList = some (.number k) := by
  have hdigits : (toString k).toList.all Char.isDigit :=
    all_eq_true.2 fun c hc => Text.isDigit_of_mem_toString hc
  have hzero : ((toString k).toList.head? = some '0' && (toString k).toList.length ≠ 1) = false := by
    rcases Nat.eq_zero_or_pos k with rfl | hk
    · rfl
    · obtain ⟨d, ds, hds, hd⟩ := Json.Lexeme.toDigits_head hk
      simp [hds, hd]
  rw [word?, if_pos hdigits, hzero, Text.toList_toString, Nat.ofDigitChars_ten_toDigits]
  rfl

theorem Token.word_spec {t : Token} (ht : t.isWord) :
    word? t.text.toList = some t ∧ t.text.toList ≠ [] ∧ ∀ c ∈ t.text.toList, isWordLetter c := by
  cases t with
  | subject => exact ⟨by decide, by decide, all_eq_true.1 (by decide)⟩
  | isIn => exact ⟨by decide, by decide, all_eq_true.1 (by decide)⟩
  | isBetween => exact ⟨by decide, by decide, all_eq_true.1 (by decide)⟩
  | number k =>
    refine ⟨word?_number k, ?_, fun c hc => isWordLetter_of_isDigit (Text.isDigit_of_mem_toString hc)⟩
    show (toString k).toList ≠ []
    rw [Text.toList_toString]
    exact Nat.toDigits_ne_nil
  | _ => cases ht

/-- Every token is written with a first letter, which tells words from others. -/
theorem Token.exists_head (t : Token) :
    ∃ c cs, t.text.toList = c :: cs ∧ isWordLetter c = t.isWord ∧ c ≠ '=' := by
  cases t with
  | number k =>
    obtain ⟨-, hne, hletters⟩ := word_spec (t := .number k) rfl
    obtain ⟨c, cs, hcs⟩ := exists_cons_of_ne_nil hne
    have hc : isWordLetter c := hletters c (hcs ▸ mem_cons_self)
    refine ⟨c, cs, hcs, hc, ?_⟩
    rintro rfl
    cases hc
  | operator o => cases o <;> exact ⟨_, _, rfl, by decide, by decide⟩
  | _ => exact ⟨_, _, rfl, by decide, by decide⟩

theorem head?_render {ts : List Token} (h : ∀ t ∈ ts.head?, t.isWord = false) :
    ∀ c ∈ (render ts).head?, isWordLetter c = false := by
  cases ts with
  | nil => exact fun c hc => by cases hc
  | cons t ts =>
    obtain ⟨c, cs, hcs, hc, -⟩ := t.exists_head
    rw [render_cons, hcs]
    rintro _ ⟨⟩
    rw [hc, h t rfl]

/-- An exclamation mark is a token of its own, since nothing is written with an equals sign first. -/
theorem symbol?_not (ts : List Token) : symbol? ('!' :: render ts) = some (.not, render ts) := by
  cases ts with
  | nil => rfl
  | cons t ts =>
    obtain ⟨c, cs, hcs, -, hc⟩ := t.exists_head
    rw [render_cons, hcs, cons_append]
    unfold symbol?
    split
    all_goals simp_all

theorem spells_render (h : Apart ts) : Spells (render ts) ts := by
  induction ts with
  | nil => exact .nil
  | cons t ts ih =>
    have hts := ih (isChain_of_isChain_cons h)
    have hcons : render (t :: ts) = t.text.toList ++ render ts := rfl
    rw [hcons]
    by_cases ht : t.isWord
    · obtain ⟨htoken, hne, hletters⟩ := t.word_spec ht
      refine .word hletters hne htoken (head?_render fun u hu => ?_) hts
      exact ((isChain_cons.1 h).1 u hu).resolve_left (by simp [ht])
    · have hblank := hts.blank
      cases t with
      | subject | number | isIn | isBetween => exact absurd rfl ht
      | operator o =>
        cases o <;> exact .blank (.symbol rfl (by decide) rfl (by simp) hblank)
      | not => exact .symbol rfl (by decide) (symbol?_not ts) (by simp) hts
      | comma => exact .symbol rfl (by decide) rfl (by simp) hblank
      | _ => exact .symbol rfl (by decide) rfl (by simp) hts

/-- **Tokens are found again in their text.** -/
theorem lex_render (h : Apart ts) : lex ((render ts).length + 1) (render ts) = some ts :=
  spells_render h _ (Nat.lt_succ_self _)

/-! ## Chains are read from the left -/

/-- Tokens with the expression that they form. -/
structure Phrase where
  tokens : List Token
  expression : Expression

/-- Phrases one after another, each behind an operator. -/
def linkTokens (o : Operator) (more : List Phrase) : List Token :=
  more.flatMap fun p => .operator o :: p.tokens

/-- An expression with others after it, taken from the left. -/
def chained (o : Operator) (a : Expression) (more : List Phrase) : Expression :=
  more.foldl (fun a p => .binary o a p.expression) a

/-- Phrases with an operator between each two. -/
def Phrase.joined (o : Operator) (p : Phrase) (more : List Phrase) : Phrase :=
  ⟨p.tokens ++ linkTokens o more, chained o p.expression more⟩

/-- What may follow an expression of a height: no operator that binds as close. -/
def Stops (height : Nat) (ts : List Token) : Prop :=
  ∀ o, ts.head? = some (.operator o) → height < o.height

/-- Tokens form an expression of a height, whatever comes after them. -/
def Phrase.Reads (height : Nat) (p : Phrase) : Prop :=
  ∀ n rest, Stops height rest → 6 * (p.tokens.length + rest.length) + height + 1 ≤ n →
    expression? n height (p.tokens ++ rest) = some (p.expression, rest)

theorem stops_of_ne {height : Nat} {t : Token} (ht : ∀ o, t ≠ .operator o) (ts : List Token) :
    Stops height (t :: ts) :=
  fun o ho => absurd (some.inj ho) (ht o)

theorem stops_nil (height : Nat) : Stops height [] := fun _ ho => by cases ho

theorem Stops.mono {low high : Nat} (hle : low ≤ high) (h : Stops high ts) : Stops low ts :=
  fun o ho => Nat.lt_of_le_of_lt hle (h o ho)

theorem Operator.height_pos (o : Operator) : 0 < o.height := by cases o <;> decide

theorem Operator.height_le (o : Operator) : o.height ≤ top := by cases o <;> decide

/-- A chain of a height does not end before a link of that height. -/
theorem stops_linkTokens {height : Nat} {o : Operator} (ho : o.height = height + 1)
    (hrest : Stops (height + 1) ts) (more : List Phrase) : Stops height (linkTokens o more ++ ts) := by
  cases more with
  | nil => exact hrest.mono (Nat.le_succ _)
  | cons p more =>
    intro o' ho'
    obtain rfl : o = o' := by simpa [linkTokens] using ho'
    exact ho ▸ Nat.lt_succ_self _

namespace Phrase

variable {height : Nat} {p : Phrase} {w : List Token} {e : Expression}

theorem reads_operand (hw : w ≠ []) (h : ∀ n rest, 6 * (w.length + rest.length) ≤ n + 1 →
      operand? (n + 1) (w ++ rest) = some (e, rest)) : Reads 0 ⟨w, e⟩ := by
  intro n rest _ hn
  have hpos := length_pos_iff.2 hw
  dsimp only at hn
  obtain ⟨n, rfl⟩ : ∃ m, n = m + 2 := ⟨n - 2, by omega⟩
  rw [expression?]
  exact h n rest (by omega)

theorem reads_subject : Reads 0 ⟨[.subject], .subject⟩ := reads_operand (by simp) fun _ _ _ => rfl

theorem reads_number (k : Nat) : Reads 0 ⟨[.number k], .number k⟩ :=
  reads_operand (by simp) fun _ _ _ => rfl

def negated (p : Phrase) : Phrase := ⟨.not :: p.tokens, .not p.expression⟩

theorem Reads.negated (h : p.Reads 0) : p.negated.Reads 0 := by
  refine reads_operand (by simp) fun n rest hn => ?_
  rw [length_cons] at hn
  have hp := h (n + 1) rest (fun o _ => o.height_pos) (by omega)
  rw [expression?] at hp
  rw [cons_append, operand?, hp]
  rfl

def enclosed (p : Phrase) : Phrase := ⟨.opening :: (p.tokens ++ [.closing]), p.expression⟩

theorem Reads.enclosed (h : p.Reads top) : p.enclosed.Reads 0 := by
  refine reads_operand (by simp) fun n rest hn => ?_
  simp only [length_append, length_cons, length_nil] at hn
  have hp := h n (.closing :: rest) (stops_of_ne (by simp) _) (by simp [top]; omega)
  rw [cons_append, operand?, append_assoc, cons_append, nil_append, hp]

/-- The numbers of a list, with the bracket that closes it. -/
def listTokens : List Nat → List Token
  | [] => [.listClosing]
  | [k] => [.number k, .listClosing]
  | k :: l => .number k :: .comma :: listTokens l

theorem numbers?_listTokens {l : List Nat} (hl : l ≠ []) (rest : List Token) :
    numbers? (listTokens l ++ rest) = some (l, rest) := by
  induction l with
  | nil => exact absurd rfl hl
  | cons k l ih =>
    cases l with
    | nil => rfl
    | cons k' l =>
      rw [listTokens, cons_append, cons_append, numbers?, ih (by simp)]
      · rfl
      · simp

/-- A call of `isIn`. -/
def isIn (p : Phrase) (l : List Nat) : Phrase :=
  ⟨.isIn :: .opening :: (p.tokens ++ .comma :: .listOpening :: (listTokens l ++ [.closing])),
    .isIn p.expression l⟩

theorem Reads.isIn (h : p.Reads top) {l : List Nat} (hl : l ≠ []) : (p.isIn l).Reads 0 := by
  refine reads_operand (by simp) fun n rest hn => ?_
  simp only [length_append, length_cons, length_nil] at hn
  have hp := h n (.comma :: .listOpening :: (listTokens l ++ .closing :: rest))
    (stops_of_ne (by simp) _) (by simp [top]; omega)
  have hlist := numbers?_listTokens hl (.closing :: rest)
  simp only [cons_append, append_assoc, nil_append, operand?, hp, hlist]

/-- The question whether a phrase lies between two numbers. -/
def isBetween (p : Phrase) (first last : Nat) : Phrase :=
  ⟨.isBetween :: .opening :: (p.tokens ++ [.comma, .number first, .comma, .number last, .closing]),
    .isBetween p.expression first last⟩

theorem Reads.isBetween (h : p.Reads top) (first last : Nat) :
    (p.isBetween first last).Reads 0 := by
  refine reads_operand (by simp) fun n rest hn => ?_
  simp only [length_append, length_cons, length_nil] at hn
  have hp := h n (.comma :: .number first :: .comma :: .number last :: .closing :: rest)
    (stops_of_ne (by simp) _) (by simp [top]; omega)
  simp only [cons_append, append_assoc, nil_append, operand?, hp]

def against (o : Operator) (p : Phrase) (k : Nat) : Phrase :=
  Phrase.joined o p [⟨[.number k], .number k⟩]

theorem chain?_of_stops {a : Expression} {rest : List Token} (hrest : Stops (height + 1) rest)
    (n : Nat) : chain? (n + 1) height a rest = some (a, rest) := by
  unfold chain?
  split
  · rename_i o ts
    have := hrest o rfl
    rw [if_neg (by omega)]
  · rfl

theorem chain?_links {o : Operator} (ho : o.height = height + 1) {more : List Phrase}
    (h : ∀ p ∈ more, p.Reads height) {n : Nat} {a : Expression} {rest : List Token}
    (hrest : Stops (height + 1) rest) (hn : 6 * ((linkTokens o more).length + rest.length) + 1 ≤ n) :
    chain? n height a (linkTokens o more ++ rest) = some (chained o a more, rest) := by
  induction more generalizing a n with
  | nil =>
    obtain ⟨n, rfl⟩ := exists_add_one hn
    exact chain?_of_stops hrest n
  | cons p more ih =>
    obtain ⟨n, rfl⟩ := exists_add_one hn
    have htop := o.height_le
    have htokens : linkTokens o (p :: more) ++ rest =
        .operator o :: (p.tokens ++ (linkTokens o more ++ rest)) := by
      simp [linkTokens]
    have hlen := congrArg length htokens
    simp only [length_append, length_cons] at hlen
    have hfirst := h p mem_cons_self n _ (stops_linkTokens ho hrest more) (by
      rw [length_append]
      unfold top at htop
      omega)
    rw [htokens, chain?, if_pos ho, hfirst, bind_eq_bind, bind_some]
    exact ih (fun q hq => h q (mem_cons_of_mem _ hq)) (by omega)

/-- **A chain is read from the left, each part of it at the height below.** -/
theorem Reads.joined (hp : p.Reads height) {o : Operator} (ho : o.height = height + 1)
    {more : List Phrase} (h : ∀ q ∈ more, q.Reads height) :
    (Phrase.joined o p more).Reads (height + 1) := by
  intro n rest hrest hn
  obtain ⟨n, rfl⟩ := exists_add_one hn
  simp only [Phrase.joined, length_append] at hn
  have hfirst := hp n (linkTokens o more ++ rest) (stops_linkTokens ho hrest more)
    (by rw [length_append]; omega)
  show expression? (n + 1) (height + 1) (p.tokens ++ linkTokens o more ++ rest) = _
  rw [expression?, append_assoc, hfirst, bind_eq_bind, bind_some]
  exact chain?_links ho h hrest (by omega)

theorem Reads.up (hp : p.Reads height) {high : Nat} (hle : height ≤ high) : p.Reads high := by
  induction hle with
  | refl => exact hp
  | step _ ih =>
    intro n rest hrest hn
    obtain ⟨n, rfl⟩ := exists_add_one hn
    obtain ⟨n, rfl⟩ := exists_add_one (show 0 < n by omega)
    rw [expression?, ih (n + 1) rest (hrest.mono (Nat.le_succ _)) (by omega), bind_eq_bind,
      bind_some]
    exact chain?_of_stops hrest n

theorem apart_joined {more : List Phrase} (o : Operator) (hp : Apart p.tokens)
    (h : ∀ q ∈ more, Apart q.tokens) : Apart (Phrase.joined o p more).tokens := by
  unfold Phrase.joined
  induction more using reverseRecOn with
  | nil => simpa [linkTokens] using hp
  | append_singleton more q ih =>
    have hlast : linkTokens o (more ++ [q]) = linkTokens o more ++ .operator o :: q.tokens := by
      simp [linkTokens]
    show Apart (p.tokens ++ linkTokens o (more ++ [q]))
    rw [hlast, ← append_assoc]
    exact (ih fun r hr => h r (mem_append_left _ hr)).glue rfl (h q (by simp))

section Values

variable {α : Type} {f : α → Phrase} {v : α → Bool} {n : Nat} {first : α} {more : List α}
  (h : ∀ x ∈ first :: more, (f x).expression.value n = some (.truth (v x)))

include h

theorem value_joined_or : (Phrase.joined .or (f first) (more.map f)).expression.value n =
    some (.truth ((first :: more).any v)) := by
  unfold Phrase.joined
  induction more using reverseRecOn with
  | nil => simpa [chained] using h
  | append_singleton more x ih =>
    have hx := h x (by simp)
    have hmore := ih fun y hy => h y (by simp at hy ⊢; tauto)
    simp only [chained, map_append, map_cons, map_nil, foldl_append,
      foldl_cons, foldl_nil, Expression.value] at hmore ⊢
    rw [hmore, hx]
    simp [Operator.apply, Bool.or_assoc]

theorem value_joined_and : (Phrase.joined .and (f first) (more.map f)).expression.value n =
    some (.truth ((first :: more).all v)) := by
  unfold Phrase.joined
  induction more using reverseRecOn with
  | nil => simpa [chained] using h
  | append_singleton more x ih =>
    have hx := h x (by simp)
    have hmore := ih fun y hy => h y (by simp at hy ⊢; tauto)
    simp only [chained, map_append, map_cons, map_nil, foldl_append,
      foldl_cons, foldl_nil, Expression.value] at hmore ⊢
    rw [hmore, hx]
    simp [Operator.apply, Bool.and_assoc]

end Values

/-- What is written of a phrase is read back as its expression. -/
theorem Reads.read? (h : p.Reads top) (hp : Apart p.tokens) :
    read? (String.ofList (render p.tokens)) = some p.expression := by
  have hlex := lex_render hp
  have hform := h (6 * p.tokens.length + 6) [] (stops_nil top) (by simp [top])
  rw [append_nil] at hform
  rw [Script.read?, ← String.length_toList, String.toList_ofList, hlex, bind_eq_bind,
    bind_some, form?, hform]

end Phrase

end AddonBuilder.Locale.Script
