import AddonBuilder.Proofs.Locale.Escapes
import AddonBuilder.Proofs.Locale.PluralRows

/-!
# Values over several lines

A value that ends in a backslash goes on in the next line.
-/

namespace AddonBuilder.Locale

open Json Text List

/-! ## Segments and their lines -/

/-- A key without separators, comment signs and white space, and without a plural category. -/
structure PlainKey (key : Text) : Prop where
  ne_nil : key ≠ []
  letters : ∀ p ∈ key, isSeparator p = false ∧ p ≠ 0x23 ∧ isWide p = false
  general : ∀ category ∈ categories, ¬ ofString ("[" ++ category ++ "]") <:+ key

/-- A line that the next one continues. -/
def continuedLine (v : Text) : Text := v ++ [0x5C, 0x0A]

/-- The last line of a value. -/
def lastLine (v : Text) : Text := v ++ [0x0A]

/-- The lines of a text whose value is given by segments. -/
def continuedText (key first : Text) (middle : List Text) (last : Text) : List Text :=
  continuedLine (key ++ 0x3D :: first) :: (middle.map continuedLine ++ [lastLine last])

/-- The value that segments make up, without the white space before each and after the last. -/
def joined (first : Text) (middle : List Text) (last : Text) : Text :=
  first.dropWhile isSpace ++ middle.flatMap (·.dropWhile isWide) ++ trim isWide last

theorem isWide_of_isSpace {p : CodePoint} (h : isSpace p) : isWide p := by
  have hascii : isAsciiBlank p.val := h
  simp [isWide, isBlank, hascii]

theorem isWide_backslash : isWide 0x5C = false := by decide

theorem isWide_lineFeed : isWide 0x0A := by decide

theorem isSpace_backslash : isSpace 0x5C = false := by decide

theorem trim_continuedLine (v : Text) :
    trim isWide (continuedLine v) = v.dropWhile isWide ++ [0x5C] := by
  have hend : trimEnd isWide [0x0A] = [] := trimEnd_of_all (forall_mem_singleton.2 isWide_lineFeed)
  rw [continuedLine, trim_append_cons isWide_backslash, hend]

theorem trim_lastLine (v : Text) : trim isWide (lastLine v) = trim isWide v :=
  trim_append_of_all (forall_mem_singleton.2 isWide_lineFeed) v

theorem isContinued_append (v : Text) (c : CodePoint) : isContinued (v ++ [c]) = (c == 0x5C) := by
  simp [isContinued]

/-- Without its line feed taken away no line ends in a backslash. -/
theorem isContinued_continuedLine (v : Text) : isContinued (continuedLine v) = false := by
  have hsplit : continuedLine v = (v ++ [0x5C]) ++ [0x0A] := by simp [continuedLine]
  rw [hsplit, isContinued_append]
  decide

theorem isContinued_lastLine (v : Text) : isContinued (lastLine v) = false := by
  rw [lastLine, isContinued_append]
  decide

theorem Verbatim.of_infix {t u : Text} (h : Verbatim t) (hu : u <:+: t) : Verbatim u :=
  IsChain.infix h hu

/-- A backslash begins no escape at the end of a text or before a line feed. -/
theorem Verbatim.continuedLine {t : Text} (h : Verbatim t) : Verbatim (continuedLine t) := by
  refine isChain_append.2 ⟨h, by decide, ?_⟩
  intro p hp q hq
  obtain rfl : q = 0x5C := by simpa using hq.symm
  intro _
  decide

/-! ## The first line -/

section FirstLine

variable {key first : Text}

theorem PlainKey.exists_cons (hkey : PlainKey key) :
    ∃ c rest, key = c :: rest ∧ isSpace c = false ∧ c ≠ 0x23 := by
  obtain ⟨c, rest, rfl⟩ := exists_cons_of_ne_nil hkey.ne_nil
  obtain ⟨-, hsharp, hwide⟩ := hkey.letters c mem_cons_self
  refine ⟨c, rest, rfl, ?_, hsharp⟩
  by_contra hspace
  rw [isWide_of_isSpace (by simpa using hspace)] at hwide
  cases hwide

theorem PlainKey.dropWhile_isSpace (hkey : PlainKey key) (t : Text) :
    (key ++ t).dropWhile isSpace = key ++ t := by
  obtain ⟨c, rest, rfl, hspace, -⟩ := hkey.exists_cons
  rw [cons_append, dropWhile_cons_of_neg (by simp [hspace])]

theorem PlainKey.isSkipped_eq_false (hkey : PlainKey key) (t : Text) :
    isSkipped (key ++ t) = false := by
  rw [isSkipped, hkey.dropWhile_isSpace]
  obtain ⟨c, rest, rfl, -, hsharp⟩ := hkey.exists_cons
  simpa using hsharp

theorem PlainKey.trimEnd_eq (hkey : PlainKey key) : trimEnd isWide key = key := by
  rw [← dropLast_append_getLast hkey.ne_nil]
  rw [trimEnd_append_cons (hkey.letters _ (getLast_mem hkey.ne_nil)).2.2]
  rfl

theorem PlainKey.keyValue?_eq (hkey : PlainKey key) (after : Text) :
    keyValue? (key ++ 0x3D :: after) =
      some (key, trimEnd isWide ((after.dropWhile isSpace).takeWhile (· ≠ 0x0A))) := by
  have hletters : ∀ p ∈ key, (!isSeparator p) := by
    intro p hp
    rw [(hkey.letters p hp).1]
    rfl
  have hempty : key.isEmpty = false := by simpa using hkey.ne_nil
  unfold keyValue?
  simp only [hkey.dropWhile_isSpace, takeWhile_append_of_pos hletters,
    dropWhile_append_of_pos hletters]
  rw [dropWhile_cons_of_neg (by decide), takeWhile_cons_of_neg (by decide)]
  simp only [append_nil, hempty, Bool.false_and, Bool.false_eq_true, if_false, hkey.trimEnd_eq]

theorem takeWhile_not_feed {v : Text} (hfeed : 0x0A ∉ v) (more : Text) :
    (v ++ 0x0A :: more).takeWhile (· ≠ 0x0A) = v := by
  have hkept : ∀ p ∈ v, decide (p ≠ 0x0A) := fun p hp => decide_eq_true fun h => hfeed (h ▸ hp)
  rw [takeWhile_append_of_pos hkept, takeWhile_cons_of_neg (by simp), append_nil]

theorem keyValue?_continuedLine (hkey : PlainKey key) (hfeed : 0x0A ∉ first) :
    keyValue? (continuedLine (key ++ 0x3D :: first)) =
      some (key, first.dropWhile isSpace ++ [0x5C]) := by
  have hline : continuedLine (key ++ 0x3D :: first) = key ++ 0x3D :: (first ++ 0x5C :: [0x0A]) := by
    simp [continuedLine]
  have hvalue : 0x0A ∉ first.dropWhile isSpace ++ [0x5C] := by
    rw [mem_append, not_or]
    exact ⟨fun h => hfeed ((dropWhile_suffix isSpace).subset h), by decide⟩
  rw [hline, hkey.keyValue?_eq, dropWhile_append_cons isSpace_backslash, append_cons,
    takeWhile_not_feed hvalue, trimEnd_append_cons isWide_backslash]
  rfl

theorem parseFrom_continuedLine (hkey : PlainKey key) (hfeed : 0x0A ∉ first) (hfirst : Verbatim first) (number : Nat)
    (table : Members) (next : Text) (more : List Text) :
    parseFrom number table (continuedLine (key ++ 0x3D :: first) :: next :: more) =
      (continueValue number (first.dropWhile isSpace) (trim isWide next) more).bind fun r =>
        parseFrom (r.2.1 + 1) (Assoc.insert table key (.text r.1)) r.2.2 := by
  have hskipped : isSkipped (continuedLine (key ++ 0x3D :: first)) = false := by
    rw [continuedLine, append_assoc]
    exact hkey.isSkipped_eq_false _
  have hraw : unescape? (first.dropWhile isSpace ++ [0x5C]) =
      some (first.dropWhile isSpace ++ [0x5C]) := by
    apply unescape?_of_verbatim
    refine hfirst.continuedLine.of_infix ?_
    have hsuffix : first.dropWhile isSpace ++ [0x5C] ++ [0x0A] <:+ continuedLine first := by
      obtain ⟨blanks, hblanks⟩ := dropWhile_suffix (l := first) isSpace
      refine ⟨blanks, ?_⟩
      rw [continuedLine, append_assoc, ← append_assoc blanks, hblanks]
      rfl
    exact (prefix_append _ _).isInfix.trans hsuffix.isInfix
  have hempty : key.isEmpty = false := by simpa using hkey.ne_nil
  have hcontinued : isContinued (first.dropWhile isSpace ++ [0x5C]) := by
    rw [isContinued_append]
    rfl
  rw [parseFrom]
  simp only [hskipped, keyValue?_continuedLine hkey hfeed, hraw, hempty, hcontinued,
    Bool.false_eq_true, if_false, if_true]
  split
  · rename_i h
    rw [dropLast_concat] at h
    rw [h]
    rfl
  · rename_i h
    rw [dropLast_concat] at h
    rw [h]
    rfl

end FirstLine

/-! ## Where a value ends -/

section Value

variable {number n : Nat} {value line v : Text} {lines rest : List Text}

theorem continueValue_of_not_isContinued (h : isContinued line = false) :
    continueValue number value line lines = .ok (value ++ trim isWide line, number, lines) := by
  cases lines <;> simp [continueValue, h]

theorem continueValue_trim_continuedLine (next : Text) :
    continueValue number value (trim isWide (continuedLine v)) (next :: rest) =
      continueValue (number + 1) (value ++ v.dropWhile isWide) next rest := by
  rw [trim_continuedLine, continueValue, isContinued_append, dropLast_concat, dropWhile_idempotent]
  rfl

end Value

section Lines

variable {key first last : Text}

theorem parseFrom_one (hkey : PlainKey key) (hfeed : 0x0A ∉ first) (hfirst : Verbatim first)
    (hlast : isContinued (trim isWide last) = false) :
    parseFrom 1 [] (continuedText key first [] last) =
      .ok [(key, .text (joined first [] last))] := by
  rw [continuedText, map_nil, nil_append, parseFrom_continuedLine hkey hfeed hfirst,
    trim_lastLine, continueValue_of_not_isContinued hlast, trim_trim]
  simp only [Except.bind, parseFrom, Assoc.insert, joined, flatMap_nil, append_nil]

/-- A last line that ends in a backslash and white space continues the value over the end. -/
theorem parseFrom_one_unfinished (hkey : PlainKey key) (hfeed : 0x0A ∉ first) (hfirst : Verbatim first)
    (hlast : isContinued (trim isWide last)) :
    parseFrom 1 [] (continuedText key first [] last) =
      .error (.unfinished 1 (trim isWide last)) := by
  rw [continuedText, map_nil, nil_append, parseFrom_continuedLine hkey hfeed hfirst,
    trim_lastLine, continueValue, if_pos hlast]
  rfl

theorem parseFrom_two (hkey : PlainKey key) (hfeed : 0x0A ∉ first) (hfirst : Verbatim first) (v : Text) :
    parseFrom 1 [] (continuedText key first [v] last) =
      .ok [(key, .text (joined first [v] last))] := by
  rw [continuedText, map_singleton, singleton_append,
    parseFrom_continuedLine hkey hfeed hfirst, continueValue_trim_continuedLine,
    continueValue_of_not_isContinued (isContinued_lastLine last), trim_lastLine]
  simp only [Except.bind, parseFrom, Assoc.insert, joined, flatMap_cons, flatMap_nil, append_nil]

/-- With three continuations or more the second one ends the value, its backslash included, and
the others are lines of their own. -/
theorem parseFrom_overrun (hkey : PlainKey key) (hfeed : 0x0A ∉ first) (hfirst : Verbatim first) (v₁ v₂ : Text)
    (more : List Text) :
    parseFrom 1 [] (continuedText key first (v₁ :: v₂ :: more) last) =
      parseFrom 3 [(key, .text (joined first [v₁, v₂] [0x5C]))]
        (more.map continuedLine ++ [lastLine last]) := by
  have hbackslash : trim isWide [0x5C] = [0x5C] := by decide
  rw [continuedText, map_cons, map_cons, cons_append, cons_append,
    parseFrom_continuedLine hkey hfeed hfirst, continueValue_trim_continuedLine,
    continueValue_of_not_isContinued (isContinued_continuedLine v₂), trim_continuedLine]
  simp only [Except.bind, Assoc.insert, joined, hbackslash, flatMap_cons, flatMap_nil,
    append_nil, append_assoc]

end Lines

/-! ## Plural forms -/

theorem PlainKey.pluralKey?_eq_none {key : Text} (hkey : PlainKey key) : pluralKey? key = none := by
  have hfeed : 0x0A ∉ key := by
    intro hmem
    have hwide := (hkey.letters _ hmem).2.2
    rw [isWide_lineFeed] at hwide
    cases hwide
  rw [Option.eq_none_iff_forall_ne_some]
  rintro ⟨main, category⟩ h
  obtain ⟨hcategory, rfl⟩ := (pluralKey?_of_no_feed hfeed).1 h
  exact hkey.general category hcategory (suffix_append _ _)

theorem PlainKey.normalisePlurals_singleton {key : Text} (hkey : PlainKey key) (v : Value) :
    normalisePlurals [(key, v)] = .ok [(key, v)] := by
  have habsorb : absorb [(key, v)] key = .ok [(key, v)] := by
    rw [absorb, hkey.pluralKey?_eq_none]
  change ([key].foldlM absorb [(key, v)]) = _
  rw [foldlM_cons, habsorb]
  rfl

/-- **Values over several lines.**  Two continuations are joined, and a single one that does not end
in a backslash and white space.  Of three continuations or more the second one ends the value with
its backslash, and the lines after it are read as lines of their own. -/
theorem parse_continuedText {key first : Text} (hkey : PlainKey key) (hfeed : 0x0A ∉ first)
    (hfirst : Verbatim first) (last : Text) :
    (isContinued (Text.trim isWide last) = false →
      parse (continuedText key first [] last) = .ok [(key, .text (joined first [] last))]) ∧
    (isContinued (Text.trim isWide last) = true →
      parse (continuedText key first [] last) = .error (.unfinished 1 (Text.trim isWide last))) ∧
    (∀ v, parse (continuedText key first [v] last) = .ok [(key, .text (joined first [v] last))]) ∧
    ∀ v₁ v₂ more, parse (continuedText key first (v₁ :: v₂ :: more) last) =
      (parseFrom 3 [(key, .text (joined first [v₁, v₂] [0x5C]))]
        (more.map continuedLine ++ [lastLine last])) >>= fun table =>
          (normalisePlurals table).mapError .plural := by
  refine ⟨?_, ?_, ?_, ?_⟩
  · intro hlast
    rw [parse, parseFrom_one hkey hfeed hfirst hlast, ok_bind, hkey.normalisePlurals_singleton]
    rfl
  · intro hlast
    rw [parse, parseFrom_one_unfinished hkey hfeed hfirst hlast]
    rfl
  · intro v
    rw [parse, parseFrom_two hkey hfeed hfirst v, ok_bind, hkey.normalisePlurals_singleton]
    rfl
  · intro v₁ v₂ more
    rw [parse, parseFrom_overrun hkey hfeed hfirst]

/-- Three lines are joined without the white space around the segments; the backslash of the last one
stays. -/
theorem parse_three_lines :
    PlainKey "a" ∧ Verbatim " b " ∧
      parse ["a= b \\\n", "  c\\\n", " d \\ \n"] = .ok [("a", .text "b cd \\")] := by
  have hkey : PlainKey "a" := ⟨by decide, List.forall_mem_singleton.2 (by decide), by decide⟩
  have hfirst : Verbatim " b " := by decide
  exact ⟨hkey, hfirst, (parse_continuedText hkey (by decide) hfirst " d \\ ").2.2.1 "  c"⟩

/-- The last two of four lines are not joined: the backslash of the third stays, and the fourth is
refused if it has no separator, and taken for a text of its own if it has one. -/
theorem four_lines_not_joined :
    parse ["a=b\\\n", "c\\\n", "d\\\n", "e\n"] = .error (.line 3 "e\n") ∧
      parse ["a=b\\\n", "c\\\n", "d\\\n", "x=e\n"] =
        .ok [("a", .text "bcd\\"), ("x", .text "e")] := by
  have hkey : PlainKey "a" := ⟨by decide, List.forall_mem_singleton.2 (by decide), by decide⟩
  have hread : ∀ last : Text, parseFrom 1 [] (continuedText "a" "b" ["c", "d"] last) =
      parseFrom 3 [("a", .text "bcd\\")] [lastLine last] := fun last =>
    parseFrom_overrun hkey (by decide) (by decide) "c" "d" []
  have hvalue : unescape? "e" = some (Text.ofString "e") := unescape?_of_verbatim (by decide)
  have hkeyValue : keyValue? "x=e\n" = some (Text.ofString "x", Text.ofString "e") := by decide
  have hrefused : parseFrom 3 [("a", .text "bcd\\")] ["e\n"] = .error (.line 3 "e\n") := by
    rw [parseFrom, if_neg (by decide)]
    rfl
  have htaken : parseFrom 3 [("a", .text "bcd\\")] ["x=e\n"] =
      .ok [("a", .text "bcd\\"), ("x", .text "e")] := by
    rw [parseFrom, if_neg (by decide), hkeyValue]
    dsimp only
    rw [hvalue]
    dsimp only
    rw [if_neg (by decide), if_neg (by decide), parseFrom]
    rfl
  exact ⟨congrArg (· >>= fun table => (normalisePlurals table).mapError Fault.plural)
      ((hread "e").trans hrefused),
    congrArg (· >>= fun table => (normalisePlurals table).mapError Fault.plural)
      ((hread "x=e").trans htaken)⟩

end AddonBuilder.Locale
