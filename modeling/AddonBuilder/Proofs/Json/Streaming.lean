import AddonBuilder.Json.Scanner
import AddonBuilder.Proofs.Json.Walk

/-!
# Documents one after another

A scan by the kinds of documents finds one document after another, each from where the last one
ended.
-/

namespace AddonBuilder.Json

namespace Parser

open Lexeme List

/-! ## Numbers in a source that ends early -/

variable {t rest : Text} {k n fuel fuel' : Nat} {e : CodePoint} {d : Document} {mode : Mode}
  {c' : Cursor}

/-- What takes as many units as it can of some kind takes the same if the text ends after them. -/
theorem length_take_eq {kind : Text → Prop} {length : Text → Nat}
    (hsplit : ∀ t, ∃ p rest, t = p ++ rest ∧ p.length = length t ∧ kind p)
    (hle : ∀ p rest, kind p → p.length ≤ length (p ++ rest)) (h : length t ≤ k) :
    length (t.take k) = length t := by
  apply Nat.le_antisymm
  · obtain ⟨p, rest, hp, hlen, hkind⟩ := hsplit (t.take k)
    have ht : t = p ++ (rest ++ t.drop k) := by rw [← append_assoc, ← hp, take_append_drop]
    grind
  · obtain ⟨p, rest, rfl, hlen, hkind⟩ := hsplit t
    rw [take_append, take_of_length_le (by omega), ← hlen]
    exact hle p _ hkind

theorem fractionLength_take (h : fractionLength t ≤ k) :
    fractionLength (t.take k) = fractionLength t := by
  refine length_take_eq fractionLength_split (fun f rest hf => ?_) h
  by_cases hempty : f = []
  · simp [hempty]
  · simp [fractionLength_append hf hempty]

theorem exponentLength_take (h : exponentLength t ≤ k) :
    exponentLength (t.take k) = exponentLength t := by
  refine length_take_eq exponentLength_split (fun e rest he => ?_) h
  by_cases hempty : e = []
  · simp [hempty]
  · simp [exponentLength_append he hempty]

theorem integerLength?_take (h : integerLength? t = some n) (hk : n ≤ k) :
    integerLength? (t.take k) = some n := by
  let length : Text → Nat := fun t => (integerLength? t).getD 0
  have hlen : length t = n := by simp [length, h]
  have hsplit : ∀ t, ∃ p rest, t = p ++ rest ∧ p.length = length t ∧ (p = [] ∨ Integer p) := by
    intro t
    cases ht : integerLength? t with
    | none => exact ⟨[], t, rfl, by simp [length, ht], .inl rfl⟩
    | some m =>
      obtain ⟨i, rest, rfl, hi, hinteger⟩ := integerLength?_split ht
      exact ⟨i, rest, rfl, by simp [length, ht, hi], .inr hinteger⟩
  have hsame : length (t.take k) = n := by
    rw [← hlen]
    refine length_take_eq hsplit ?_ (hlen ▸ hk)
    rintro p rest (rfl | hp)
    · exact Nat.zero_le _
    · obtain ⟨more, -, hmore⟩ := integerLength?_append hp rest
      simp [length, hmore]
  have hpos : n ≠ 0 := by
    obtain ⟨i, rest, -, rfl, hi⟩ := integerLength?_split h
    obtain ⟨u, after, rfl, -⟩ := integer_head hi
    exact Nat.succ_ne_zero _
  cases hshort : integerLength? (t.take k) with
  | none => exact absurd (by simpa [length, hshort] using hsame.symm) hpos
  | some m => simpa [length, hshort] using hsame

/-- **A number is found the same if the text ends after it.** -/
theorem number?_take (h : number? t = some (d, n))
    (hk : n ≤ k) : number? (t.take k) = some (d, n) := by
  unfold number? at h ⊢
  obtain ⟨i, hi, h⟩ := Option.map_eq_some_iff.1 h
  dsimp only at h
  have hn : n = i + fractionLength (t.drop i) +
      exponentLength (t.drop (i + fractionLength (t.drop i))) := by
    split at h
    · have := (Prod.mk.inj h).2
      omega
    · exact (Prod.mk.inj h).2.symm
  have hfraction : fractionLength ((t.take k).drop i) = fractionLength (t.drop i) := by
    rw [drop_take]
    exact fractionLength_take (by omega)
  have hexponent : exponentLength ((t.take k).drop (i + fractionLength (t.drop i))) =
      exponentLength (t.drop (i + fractionLength (t.drop i))) := by
    rw [drop_take]
    exact exponentLength_take (by omega)
  rw [integerLength?_take hi (by omega), Option.map_some]
  dsimp only
  rw [hfraction, hexponent, take_take, take_take, Nat.min_eq_left (by omega),
    Nat.min_eq_left (by omega), h]

theorem value_take_number {pos : Nat} {n : Text} (hn : Integer n) (hlen : n.length ≤ k)
    (h : value mode (fuel + 1) ⟨pos, n ++ rest⟩ = .ok (some (d, c')))
    (hk : c'.pos ≤ pos + k) :
    value mode (fuel' + 1) ⟨pos, (n ++ rest).take k⟩ =
      .ok (some (d, ⟨c'.pos, c'.rest.take (pos + k - c'.pos)⟩)) := by
  rw [value_integer hn] at h
  obtain ⟨⟨d', m⟩, hnumber, hfound⟩ := Option.map_eq_some_iff.1 (Except.ok.inj h)
  obtain ⟨rfl, rfl⟩ := Prod.mk.inj hfound
  have hm : m ≤ k := Nat.le_of_add_le_add_left hk
  have hshort := number?_take hnumber hm
  have htake : (n ++ rest).take k = n ++ rest.take (k - n.length) := by
    rw [take_append, take_of_length_le hlen]
  rw [htake] at hshort ⊢
  rw [value_integer hn, hshort, Option.map_some, ← htake]
  simp only [Cursor.advance, drop_take, Nat.add_sub_add_left]

/-- **What the parser finds depends on no unit after it.** -/
theorem value_take {α : Type} (r : Reading α) {c : Cursor}
    (h : value mode fuel c = .ok (some (d, c')))
    (hk : c'.pos ≤ c.pos + k) (hfuel : c'.pos < c.pos + fuel') :
    ∃ d' : Document, d'.read r = d.read r ∧
      value mode fuel' ⟨c.pos, c.rest.take k⟩ =
        .ok (some (d', ⟨c'.pos, c'.rest.take (c.pos + k - c'.pos)⟩)) := by
  obtain ⟨t, ⟨hrest, hposition⟩, hderives⟩ := (sound mode r fuel).value h
  have hpasses : Passes ⟨c.pos, c.rest.take k⟩ t ⟨c'.pos, c'.rest.take (c.pos + k - c'.pos)⟩ := by
    refine ⟨?_, hposition⟩
    dsimp only
    rw [hrest, take_append, take_of_length_le (by omega), hposition, Nat.add_sub_add_left]
  obtain ⟨fuel', rfl⟩ : ∃ m, fuel' = m + 1 := Nat.exists_eq_add_one.2 (by omega)
  by_cases hnumeric : Numeric t
  · obtain ⟨n, after, hn, rfl⟩ := hnumeric
    obtain ⟨fuel, rfl⟩ : ∃ m, fuel = m + 1 := by
      cases fuel with
      | zero => simp [value] at h
      | succ fuel => exact ⟨fuel, rfl⟩
    rw [length_append] at hposition
    rw [append_assoc] at hrest
    obtain ⟨pos, rest⟩ := c
    obtain rfl : rest = n ++ (after ++ c'.rest) := hrest
    exact ⟨d, rfl, value_take_number hn (by omega) h hk⟩
  · -- Anything but a number is found whatever follows it.
    exact parses_of_derives hderives fuel' _ _ hpasses (by omega) fun h => absurd h hnumeric

end Parser

/-! ## One document -/

variable {mode : Mode} {s : Text} {n stop : Nat} {d : Document} {c : Cursor}

/-- Every document takes something, and ends in the text. -/
theorem parseAt_bounds (hn : n ≤ s.length)
    (h : parseAt mode s n = .ok (d, stop)) : n < stop ∧ stop ≤ s.length := by
  obtain ⟨c, hfound, rfl⟩ := parseAt_eq_ok_iff.1 h
  rw [cursorAt_of_le hn] at hfound
  obtain ⟨t, ⟨hrest, hposition⟩, hderives⟩ := (Parser.sound mode Value.reading _).value hfound
  obtain ⟨u, after, rfl, -⟩ := hderives.opens
  have hlen := congrArg List.length hrest
  simp only [List.length_drop, List.length_append, List.length_cons] at hlen hposition
  omega

/-- **A document is the same if the source ends after it.** -/
theorem parseAt_take {α : Type} (r : Reading α) {m : Nat}
    (hn : n ≤ s.length) (h : parseAt mode s n = .ok (d, stop)) (hm : stop ≤ m) :
    ∃ d' : Document, d'.read r = d.read r ∧ parseAt mode (s.take m) n = .ok (d', stop) := by
  have hbounds := parseAt_bounds hn h
  obtain ⟨c, hfound, rfl⟩ := parseAt_eq_ok_iff.1 h
  rw [cursorAt_of_le hn] at hfound
  have hlen : (s.take m).length = min m s.length := List.length_take
  have hfuel : c.pos < n + (2 * ((s.take m).drop n).length + 1) := by
    rw [List.length_drop, hlen]
    omega
  obtain ⟨d', hread, hvalue⟩ :=
    Parser.value_take r hfound (by show c.pos ≤ n + (m - n); omega) hfuel
  refine ⟨d', hread, parseAt_eq_ok_iff.2 ?_⟩
  rw [cursorAt_of_le (by omega)]
  unfold Parser.valueAt
  dsimp only
  rw [List.drop_take] at hvalue ⊢
  exact ⟨_, hvalue, rfl⟩

theorem valueAt_none (hbrace : Parser.starts c 0x7B = false)
    (hbracket : Parser.starts c 0x5B = false) (hquote : Parser.starts c 0x22 = false)
    (hconstant : Parser.constant? c.rest = none) (hnumber : Parser.number? c.rest = none) :
    Parser.valueAt mode c = .ok none := by
  rw [Parser.valueAt, Parser.value]
  simp [hbrace, hbracket, hquote, hconstant, hnumber]

theorem parseAt_length (mode : Mode) (s : Text) : parseAt mode s s.length = .error .noDocument := by
  have hnone : Parser.valueAt mode (cursorAt s s.length) = .ok none := by
    rw [cursorAt_of_le (Nat.le_refl _), List.drop_length]
    exact valueAt_none rfl rfl rfl rfl rfl
  unfold parseAt
  rw [hnone]
  rfl

/-! ## The first kind that matches -/

/-- How many units of the source the match of a document takes: all of a constant or a number, and
the first unit of anything else. -/
def matchLength : Reading Nat where
  constant k := k.word.length
  integer lexeme := lexeme.length
  real lexeme := lexeme.length
  string _ := 1
  array _ := 1
  emptyObject := 1
  object _ := 1

theorem matchLength_pos {c' : Cursor}
    (h : Parser.valueAt mode c = .ok (some (d, c'))) : 0 < d.read matchLength := by
  obtain ⟨t, -, hderives⟩ := (Parser.sound mode matchLength _).value h
  generalize d.read matchLength = width at hderives
  cases hderives with
  | constant k => cases k <;> decide
  | integer hn =>
    obtain ⟨u, after, rfl, -⟩ := Parser.integer_head hn
    exact Nat.succ_pos _
  | @real n f e hn _ _ _ =>
    obtain ⟨u, after, rfl, -⟩ := Parser.integer_head hn
    exact Nat.succ_pos _
  | string | emptyArray | array | emptyObject | object => exact Nat.one_pos

namespace TokenKind

/-- What the parser finds at a place, as a match. -/
def found : Except ParseError (Option (Document × Cursor)) → Option (Match Document)
  | .ok none => none
  | .ok (some (d, next)) => some ⟨d.read matchLength, .ok (d, some next.pos)⟩
  | .error e => some ⟨1, .error e⟩

theorem matchAt_document (mode : Mode) (accepts : Text → Bool) (c : Cursor) :
    (document mode accepts).matchAt c =
      if accepts c.rest then found (Parser.valueAt mode c) else none := by
  unfold document
  dsimp only
  cases accepts c.rest with
  | false => rfl
  | true =>
    cases Parser.valueAt mode c with
    | error e => rfl
    | ok answer =>
      cases answer with
      | none => rfl
      | some p =>
        obtain ⟨d, next⟩ := p
        cases d with
        | object members => cases members <;> rfl
        | _ => rfl

/-- Of kinds that look for the same document, the first that may have it finds it. -/
theorem findSome?_document (mode : Mode) (c : Cursor) (accepts : List (Text → Bool)) :
    (accepts.map (document mode)).findSome? (fun kind => kind.matchAt c) =
      if accepts.any (fun p => p c.rest) then found (Parser.valueAt mode c) else none := by
  induction accepts with
  | nil => rfl
  | cons p accepts ih =>
    rw [List.map_cons, List.findSome?_cons, matchAt_document, List.any_cons, ih]
    cases p c.rest with
    | false => simp
    | true =>
      cases found (Parser.valueAt mode c) <;> simp

end TokenKind

namespace Scanner

/-- The kinds of documents, in the order in which they are tried. -/
def documentKinds {α : Type} (r : Reading α) : List (TokenKind α) :=
  [.object, .array, .string, .constant, .number].map (TokenKind.map (Document.read r))

/-- **The first kind that matches finds what the parser finds.** -/
theorem firstMatch_documentKinds {α : Type} (r : Reading α) (c : Cursor) :
    firstMatch (documentKinds r) false c =
      (TokenKind.found (Parser.valueAt {} c)).map fun m =>
        ⟨m.length, m.token.map fun p => (p.1.read r, p.2)⟩ := by
  have hkinds : [TokenKind.object, .array, .string, .constant, .number].findSome?
      (fun kind => kind.matchAt c) = TokenKind.found (Parser.valueAt {} c) := by
    refine (TokenKind.findSome?_document {} c [TokenKind.opensWith 0x7B, TokenKind.opensWith 0x5B,
      TokenKind.opensWith 0x22, fun t => (Parser.constant? t).isSome,
      fun t => (Parser.number? t).isSome]).trans ?_
    split
    · rfl
    · rename_i hrefused
      simp only [List.any_cons, List.any_nil, Bool.or_false, Bool.or_eq_true, not_or,
        Bool.not_eq_true, Option.isSome_eq_false_iff, Option.isNone_iff_eq_none] at hrefused
      obtain ⟨hbrace, hbracket, hquote, hconstant, hnumber⟩ := hrefused
      rw [valueAt_none hbrace hbracket hquote hconstant hnumber]
      rfl
  rw [← hkinds, List.map_findSome?]
  unfold firstMatch documentKinds
  rw [List.findSome?_map]
  congr 1
  funext kind
  cases h : kind.matchAt c <;> simp [TokenKind.map, h]

variable {α : Type} {r : Reading α} {s : Text} {n : Nat}

/-- One round of the scan by the kinds of documents, where there is a document. -/
theorem tokensFrom_item {d : Document} {stop : Nat} (hn : n ≤ s.length)
    (h : parseAt {} s n = .ok (d, stop)) (fuel : Nat) :
    tokensFrom (documentKinds r) s (fuel + 1) n n false =
      ((d.read r, (stop : Int)) :: (tokensFrom (documentKinds r) s fuel stop stop false).1,
        (tokensFrom (documentKinds r) s fuel stop stop false).2) := by
  have hbounds := parseAt_bounds hn h
  obtain ⟨c, hfound, rfl⟩ := parseAt_eq_ok_iff.1 h
  have hpos := matchLength_pos hfound
  have hmoved : ((n + d.read matchLength : Nat) : Int) ≠ n := by omega
  rw [tokensFrom, firstMatch_documentKinds, hfound]
  simp only [TokenKind.found, Option.map_some, Except.map]
  rw [if_neg hmoved]
  -- The scanner jumps unless the match already reached the end of the document.
  by_cases hjump : c.pos = n + d.read matchLength
  · have hnone : Option.filter (fun m => decide (m ≠ (c.pos : Int)))
        (some (c.pos : Int)) = none := by
      simp
    have hwidth : decide (d.read matchLength = 0) = false := decide_eq_false (Nat.ne_of_gt hpos)
    simp only [← hjump, hnone, hwidth, Option.getD_none]
  · have hsome : Option.filter (fun m => decide (m ≠ ((n + d.read matchLength : Nat) : Int)))
        (some (c.pos : Int)) = some (c.pos : Int) := by
      rw [Option.filter_some, if_pos (decide_eq_true (by omega))]
    have hcursor : (cursorAt s c.pos).pos = c.pos := by
      rw [cursorAt_of_le hbounds.2]
    simp only [hsome, hcursor, Option.getD_some]

theorem tokensFrom_stop (h : parseAt {} s n = .error .noDocument) (fuel : Nat) :
    tokensFrom (documentKinds r) s (fuel + 1) n n false = ([], none) := by
  have hnone : Parser.valueAt {} (cursorAt s n) = .ok none := by
    obtain herror | ⟨hnone, -⟩ := parseAt_eq_error_iff.1 h
    · have hblames := runs_valueAt {} (cursorAt s n)
      rw [herror] at hblames
      obtain ⟨reason, place, heq⟩ := Place.Blames.exists_wrong rfl hblames
      cases heq
    · exact hnone
  rw [tokensFrom, firstMatch_documentKinds, hnone]
  rfl

theorem tokensFrom_fail {e : ParseError} (h : parseAt {} s n = .error e) (he : e ≠ .noDocument)
    (fuel : Nat) : tokensFrom (documentKinds r) s (fuel + 1) n n false = ([], some e) := by
  have herror : Parser.valueAt {} (cursorAt s n) = .error e := by
    obtain herror | ⟨-, hnone⟩ := parseAt_eq_error_iff.1 h
    · exact herror
    · exact absurd hnone he
  have hmoved : ((n + 1 : Nat) : Int) ≠ n := by omega
  rw [tokensFrom, firstMatch_documentKinds, herror]
  simp only [TokenKind.found, Option.map_some, Except.map]
  rw [if_neg hmoved]

end Scanner

/-! ## Repeated parsing -/

/-- The documents that are found by parsing again and again, each time from where the last document
ended, with their readings and ends.  It is over where there is no document, which is a failure if
one had started. -/
inductive Decodings {α : Type} (r : Reading α) (s : Text) :
    Nat → List (α × Int) → Option ParseError → Prop
  | stop {n : Nat} : parseAt {} s n = .error .noDocument → Decodings r s n [] none
  | fail {n : Nat} {e : ParseError} : parseAt {} s n = .error e → e ≠ .noDocument →
      Decodings r s n [] (some e)
  | item {n stop : Nat} {d : Document} {found : List (α × Int)} {failure : Option ParseError} :
      parseAt {} s n = .ok (d, stop) → Decodings r s stop found failure →
      Decodings r s n ((d.read r, (stop : Int)) :: found) failure

namespace Decodings

variable {α : Type} {r : Reading α} {s : Text} {n : Nat} {found : List (α × Int)}
  {failure : Option ParseError}

/-- **The scan parses again and again**, given a round for each unit that is left and one more. -/
theorem of_tokensFrom {fuel : Nat} (hn : n ≤ s.length) (hfuel : s.length - n < fuel) :
    Decodings r s n (Scanner.tokensFrom (Scanner.documentKinds r) s fuel n n false).1
      (Scanner.tokensFrom (Scanner.documentKinds r) s fuel n n false).2 := by
  induction fuel generalizing n with
  | zero => omega
  | succ fuel ih =>
    cases hparse : parseAt {} s n with
    | error e =>
      by_cases he : e = .noDocument
      · subst he
        rw [Scanner.tokensFrom_stop hparse]
        exact .stop hparse
      · rw [Scanner.tokensFrom_fail hparse he]
        exact .fail hparse he
    | ok found =>
      have hbounds := parseAt_bounds hn hparse
      rw [Scanner.tokensFrom_item hn hparse]
      exact .item hparse (ih hbounds.2 (by omega))

theorem unique {found' : List (α × Int)} {failure' : Option ParseError}
    (h : Decodings r s n found failure) (h' : Decodings r s n found' failure') :
    (found, failure) = (found', failure') := by
  induction h generalizing found' failure' with
  | stop hparse =>
    cases h' with
    | stop => rfl
    | fail hparse' he => exact absurd (Except.error.inj (hparse'.symm.trans hparse)) he
    | item hparse' => rw [hparse] at hparse'; cases hparse'
  | fail hparse he =>
    cases h' with
    | stop hparse' => exact absurd (Except.error.inj (hparse.symm.trans hparse')) he
    | fail hparse' => rw [Except.error.inj (hparse.symm.trans hparse')]
    | item hparse' => rw [hparse] at hparse'; cases hparse'
  | item hparse _ ih =>
    cases h' with
    | stop hparse' => rw [hparse] at hparse'; cases hparse'
    | fail hparse' => rw [hparse] at hparse'; cases hparse'
    | item hparse' hrest' =>
      grind

theorem of_tokens (hn : n ≤ s.length) :
    Decodings r s n (Scanner.tokens (Scanner.documentKinds r) s n).1
      (Scanner.tokens (Scanner.documentKinds r) s n).2 := by
  unfold Scanner.tokens
  rw [cursorAt_of_le hn]
  exact of_tokensFrom hn (by omega)

theorem eq_tokens (hn : n ≤ s.length) (h : Decodings r s n found failure) :
    Scanner.tokens (Scanner.documentKinds r) s n = (found, failure) :=
  (of_tokens hn).unique h

theorem parseAt_end (h : Decodings r s n found failure) {k : Nat} {previous : Int} {item : α × Int}
    (hprevious : ((n : Int) :: found.map Prod.snd)[k]? = some previous)
    (hitem : found[k]? = some item) :
    (parseAt {} s previous).map (fun p => (p.1.read r, (p.2 : Int))) = .ok item := by
  induction h generalizing k with
  | stop => simp at hitem
  | fail => simp at hitem
  | item hparse _ ih =>
    cases k with
    | zero =>
      obtain rfl := Option.some.inj hprevious
      obtain rfl := Option.some.inj hitem
      rw [hparse]
      rfl
    | succ k => exact ih hprevious hitem

theorem parseAt_last (h : Decodings r s n found failure) :
    ∃ last, ((n : Int) :: found.map Prod.snd).getLast? = some last ∧
      parseAt {} s last = .error (failure.getD .noDocument) ∧ failure ≠ some .noDocument := by
  induction h with
  | stop hparse => exact ⟨_, rfl, hparse, by simp⟩
  | fail hparse he => exact ⟨_, rfl, hparse, by simpa using he⟩
  | item _ _ ih =>
    obtain ⟨last, hlast, hparse⟩ := ih
    exact ⟨last, by rw [List.map_cons, List.getLast?_cons_cons, hlast], hparse⟩

/-- The ends of the documents increase, inside the source. -/
theorem ends_increasing (h : Decodings r s n found failure) (hn : n ≤ s.length) :
    ((n : Int) :: found.map Prod.snd).Pairwise (· < ·) ∧
      ∀ stop ∈ (n : Int) :: found.map Prod.snd, stop ≤ s.length := by
  induction h with
  | stop => simpa using hn
  | fail => simpa using hn
  | @item n stop d found failure hparse _ ih =>
    have hbounds := parseAt_bounds hn hparse
    obtain ⟨hpairwise, hinside⟩ := ih hbounds.2
    rw [List.map_cons]
    refine ⟨List.pairwise_cons.2 ⟨?_, hpairwise⟩, ?_⟩
    · intro later hlater
      have hstop : (n : Int) < stop := by omega
      obtain rfl | hmem := List.mem_cons.1 hlater
      · exact hstop
      · exact Int.lt_trans hstop ((List.pairwise_cons.1 hpairwise).1 later hmem)
    · grind

/-- In a source that ends with a document, the documents up to it are found, and nothing else. -/
theorem take (h : Decodings r s n found failure) (hn : n ≤ s.length) {k : Nat} {item : α × Int}
    (hitem : found[k]? = some item) :
    Decodings r (s.take item.2.toNat) n (found.take (k + 1)) none := by
  induction h generalizing k with
  | stop => simp at hitem
  | fail => simp at hitem
  | @item n stop d found failure hparse hrest ih =>
    have hbounds := parseAt_bounds hn hparse
    cases k with
    | zero =>
      obtain rfl := Option.some.inj hitem
      obtain ⟨d', hread, hparse'⟩ := parseAt_take r hn hparse (Nat.le_refl stop)
      have hlen : (s.take stop).length = stop := by rw [List.length_take]; omega
      have hend := parseAt_length {} (s.take stop)
      rw [hlen] at hend
      have hitem := Decodings.item (r := r) hparse' (.stop hend)
      rw [hread] at hitem
      simpa using hitem
    | succ k =>
      have hlater : (stop : Int) < item.2 :=
        (List.pairwise_cons.1 (hrest.ends_increasing hbounds.2).1).1 _
          (List.mem_map_of_mem (List.mem_of_getElem? hitem))
      obtain ⟨d', hread, hparse'⟩ := parseAt_take r hn hparse (by omega : stop ≤ item.2.toNat)
      have hitem := Decodings.item (r := r) hparse' (ih hbounds.2 hitem)
      rw [hread] at hitem
      simpa using hitem

end Decodings

/-- **A scan by the kinds of documents parses again and again.**  From an index inside the source it
comes to an end: more rounds give the same.  The ends of the documents increase and stay inside the
source; each document with its end is what is parsed at the end of the one before; at the last end
parsing fails, where the scan stops if no document starts there and else fails with the same error.
And if the source is cut off after a document, the scan finds the documents up to that one. -/
theorem tokens_repeat_parsing {α : Type} (r : Reading α) (s : Text) (index : Nat)
    (hindex : index ≤ s.length) :
    let kinds := Scanner.documentKinds r
    let scan := Scanner.tokens kinds s index
    let ends : List Int := index :: scan.1.map Prod.snd
    (∀ rounds, s.length - index < rounds →
      Scanner.tokensFrom kinds s rounds index index false = scan) ∧
    ends.Pairwise (· < ·) ∧ (∀ stop ∈ ends, stop ≤ s.length) ∧
    (∀ (k : Nat) previous item, ends[k]? = some previous → scan.1[k]? = some item →
      (parseAt {} s previous).map (fun p => (p.1.read r, (p.2 : Int))) = .ok item) ∧
    (∃ last, ends.getLast? = some last ∧
      parseAt {} s last = .error (scan.2.getD .noDocument) ∧ scan.2 ≠ some .noDocument) ∧
    ∀ (k : Nat) item, scan.1[k]? = some item →
      Scanner.tokens kinds (s.take item.2.toNat) index = (scan.1.take (k + 1), none) := by
  intro kinds scan ends
  have hscan : Decodings r s index scan.1 scan.2 := .of_tokens hindex
  have hends := hscan.ends_increasing hindex
  refine ⟨?_, hends.1, hends.2, ?_, hscan.parseAt_last, ?_⟩
  · intro rounds hrounds
    exact (Decodings.of_tokensFrom hindex hrounds).unique hscan
  · intro k previous item hprevious hitem
    exact hscan.parseAt_end hprevious hitem
  · intro k item hitem
    have hmem : item.2 ∈ scan.1.map Prod.snd := List.mem_map_of_mem (List.mem_of_getElem? hitem)
    have hafter : (index : Int) < item.2 := (List.pairwise_cons.1 hends.1).1 _ hmem
    refine Decodings.eq_tokens ?_ (hscan.take hindex hitem)
    rw [List.length_take]
    omega

/-- A number, an array and a string that does not end: the scan finds two documents and fails. -/
theorem tokens_repeat_parsing_unterminated :
    let s : Text := [0x31, 0x5B, 0x22, 0x22, 0x5D, 0x22, 0x61]
    let kinds := Scanner.documentKinds Value.reading
    let found : List (Value × Int) := [(.int 1, 1), (.array [.text []], 5)]
    0 ≤ s.length ∧
    Scanner.tokens kinds s 0 = (found, some (.wrong .unterminatedString 5)) ∧
    (∀ rounds, s.length < rounds →
      Scanner.tokensFrom kinds s rounds 0 0 false = (found, some (.wrong .unterminatedString 5))) ∧
    (parseAt {} s 1).map (fun p => (p.1.value, (p.2 : Int))) = .ok (.array [.text []], 5) ∧
    parseAt {} s 5 = .error (.wrong .unterminatedString 5) ∧
    Scanner.tokens kinds (s.take 5) 0 = (found, none) := by
  intro s kinds found
  have hnumber : parseAt {} s (0 : Nat) = .ok (.integer [0x31], 1) := by
    have hvalue : Parser.valueAt {} ⟨0, s⟩ = .ok (some (.integer [0x31], ⟨1, s.drop 1⟩)) :=
      Parser.value_integer (n := [0x31]) (.positive (.digits rfl (by decide) (by simp))) (s.drop 1)
    exact parseAt_eq_ok_iff.2 ⟨_, hvalue, rfl⟩
  have harray : parseAt {} s (1 : Nat) = .ok (.array [.string []], 5) := rfl
  have hfailure : parseAt {} s (5 : Nat) = .error (.wrong .unterminatedString 5) := rfl
  have hscan : Scanner.tokens kinds s 0 = (found, some (.wrong .unterminatedString 5)) :=
    Decodings.eq_tokens (Nat.zero_le _) (.item hnumber (.item harray (.fail hfailure (by simp))))
  obtain ⟨hrounds, -, -, hitems, ⟨last, hlast, hfails, -⟩, hcut⟩ :=
    tokens_repeat_parsing Value.reading s 0 (Nat.zero_le _)
  rw [Int.natCast_zero, hscan] at hrounds hitems hlast hfails hcut
  refine ⟨Nat.zero_le _, hscan, hrounds, hitems 1 1 _ rfl rfl, ?_,
    hcut 1 (.array [.text []], 5) rfl⟩
  obtain rfl := Option.some.inj hlast
  exact hfails

end AddonBuilder.Json
