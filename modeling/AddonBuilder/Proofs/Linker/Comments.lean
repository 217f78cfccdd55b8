import AddonBuilder.Linker.Scan
import AddonBuilder.Proofs.Text.Trim

/-!
# Commented lines

A line whose first characters are `//` should ask for nothing.
-/

namespace AddonBuilder.Linker

open Text Assoc

/-! ## Calls in a commented line -/

/-- What stands after the first semicolon of a line. -/
def laterClauses (line : List Char) : List Char := (line.dropWhile (· != ';')).tail

theorem pieces_eq_cons {α : Type} (p : α → Bool) (l : List α) :
    pieces p l = l.takeWhile (!p ·) ::
      (if l.any p then pieces p (l.dropWhile (!p ·)).tail else []) := by
  induction l with
  | nil => rfl
  | cons c rest ih =>
    by_cases hc : p c
    · simp [pieces, hc]
    · simp only [Bool.not_eq_true] at hc
      rw [pieces, ih]
      simp [hc]

/-- Whether the first characters of a line that are not white space make it a comment. -/
def IsCommented (line : List Char) : Prop := ['/', '/'] <+: line.dropWhile asciiBlankChar

instance (line : List Char) : Decidable (IsCommented line) :=
  inferInstanceAs (Decidable (_ <+: _))

theorem IsCommented.isComment_first {line : List Char} (h : IsCommented line) :
    isComment (trim asciiBlankChar (line.takeWhile fun c => !(c == ';'))) := by
  obtain ⟨rest, hrest⟩ := h
  have hslash : asciiBlankChar '/' = false := by decide
  have hs : ∀ c ∈ line.takeWhile asciiBlankChar, asciiBlankChar c :=
    fun c hc => List.mem_takeWhile_imp hc
  have hsemicolon : ∀ c ∈ line.takeWhile asciiBlankChar, (!(c == ';')) := by
    intro c hc
    by_contra hne
    obtain rfl : c = ';' := by simpa using hne
    exact absurd (hs _ hc) (by decide)
  have hend := trimEnd_append_cons hslash [] (rest.takeWhile fun c => !(c == ';'))
  rw [← List.takeWhile_append_dropWhile (p := asciiBlankChar) (l := line), ← hrest,
    List.takeWhile_append_of_pos hsemicolon]
  simp only [List.cons_append, List.nil_append] at hend ⊢
  rw [List.takeWhile_cons_of_pos (by decide), List.takeWhile_cons_of_pos (by decide),
    trim_append_cons hslash, List.dropWhile_eq_nil_iff.2 hs, hend]
  rfl

/-- Of a commented line only what follows a semicolon is looked at. -/
theorem lineRequires_of_comment {line : List Char} (h : IsCommented line) :
    lineRequires line = lineRequires (laterClauses line) := by
  have hfirst := h.isComment_first
  rw [lineRequires, pieces_eq_cons, List.map_cons, List.flatMap_cons, if_pos hfirst, List.nil_append]
  by_cases hany : line.any (· == ';')
  · rw [if_pos hany]
    rfl
  · have hnone : laterClauses line = [] := by
      have hall : ∀ c ∈ line, (c != ';') := by
        intro c hc
        by_contra hne
        exact hany (List.any_eq_true.2 ⟨c, hc, by simpa using hne⟩)
      rw [laterClauses, List.dropWhile_eq_nil_iff.2 hall]
      rfl
    rw [if_neg hany, hnone]
    rfl

/-! ## What a module asks for -/

theorem mem_keys_addName {line : Option Nat} {r : Requirements} {name asked : String} :
    asked ∈ keys (addName line r name) ↔ asked ∈ keys r ∨ asked = name := by
  by_cases hmem : name ∈ keys r
  · rw [addName, if_pos (contains_iff.2 hmem)]
    exact ⟨.inl, fun h => h.elim id fun h => h ▸ hmem⟩
  · rw [addName, if_neg (mt contains_iff.1 hmem), insert_of_not_mem hmem]
    simp [keys]

theorem mem_keys_foldl_addName {line : Option Nat} {names : List String} {r : Requirements}
    {asked : String} :
    asked ∈ keys (names.foldl (addName line) r) ↔ asked ∈ keys r ∨ asked ∈ names := by
  induction names generalizing r with
  | nil => simp
  | cons name more ih =>
    rw [List.foldl_cons, ih, mem_keys_addName, List.mem_cons, or_assoc]

theorem mem_keys_calls {numbered : List (List Char × Nat)} {r : Requirements} {asked : String}
    {call : Requirements → List Char × Nat → Requirements}
    (hcall : ∀ r x, call r x = (lineRequires x.1).foldl (addName (some x.2)) r) :
    asked ∈ keys (numbered.foldl call r) ↔
      asked ∈ keys r ∨ ∃ line ∈ numbered.map Prod.fst, asked ∈ lineRequires line := by
  induction numbered generalizing r with
  | nil => simp
  | cons first more ih =>
    rw [List.foldl_cons, ih, hcall, mem_keys_foldl_addName, List.map_cons,
      List.exists_mem_cons_iff, or_assoc]

theorem mem_keys_requirements {lines : List (List Char)} {asked : String} :
    asked ∈ keys (requirements lines) ↔
      (∃ line ∈ lines, asked ∈ lineRequires line) ∨
        asked ∈ listedNames (intercalate ['\n'] lines) := by
  rw [requirements, mem_keys_foldl_addName, mem_keys_calls fun _ _ => rfl, List.zipIdx_map_fst]
  simp [keys]

theorem listedNames_of_none {text : List Char} (h : ∀ t, t <:+ text → nameList? t = none) :
    listedNames text = [] := by
  have hmatches : allMatches (fun _ => false) nameList? text.length false text = [] := by
    induction text with
    | nil => rfl
    | cons c rest ih =>
      simp only [List.length_cons, allMatches, Bool.false_eq_true, if_false, h _ List.suffix_rfl]
      exact ih fun t ht => h t (ht.trans (List.suffix_cons c rest))
  rw [listedNames, hmatches]
  rfl

/-- **Commented lines.**  Of a line that is commented out the calls after its first semicolon still
count, and so do lists.  If the lists are those that are found with an empty line in its place, the
module asks for the same exactly if it asks for what these calls ask for anyway; without any lists,
exactly if calls in other lines do. -/
theorem requirements_of_comment {line empty : List Char} (hline : IsCommented line)
    (hempty : empty = [] ∨ empty = ['\n']) (before after : List (List Char)) :
    (∀ name, name ∈ Assoc.keys (requirements (before ++ line :: after)) ↔
      (∃ other ∈ before ++ after, name ∈ lineRequires other) ∨
        name ∈ lineRequires (laterClauses line) ∨
        name ∈ listedNames (Text.intercalate ['\n'] (before ++ line :: after))) ∧
    (∀ name, name ∈ Assoc.keys (requirements (before ++ empty :: after)) ↔
      (∃ other ∈ before ++ after, name ∈ lineRequires other) ∨
        name ∈ listedNames (Text.intercalate ['\n'] (before ++ empty :: after))) ∧
    (listedNames (Text.intercalate ['\n'] (before ++ line :: after)) =
        listedNames (Text.intercalate ['\n'] (before ++ empty :: after)) →
      ((∀ name, name ∈ Assoc.keys (requirements (before ++ line :: after)) ↔
          name ∈ Assoc.keys (requirements (before ++ empty :: after))) ↔
        ∀ name ∈ lineRequires (laterClauses line),
          name ∈ Assoc.keys (requirements (before ++ empty :: after)))) ∧
    ((∀ between ∈ [line, empty], ∀ t,
        t <:+ Text.intercalate ['\n'] (before ++ between :: after) → nameList? t = none) →
      ((∀ name, name ∈ Assoc.keys (requirements (before ++ line :: after)) ↔
          name ∈ Assoc.keys (requirements (before ++ empty :: after))) ↔
        ∀ name ∈ lineRequires (laterClauses line),
          ∃ other ∈ before ++ after, name ∈ lineRequires other)) := by
  have hcalls : ∀ (between : List Char) (name : String),
      (∃ other ∈ before ++ between :: after, name ∈ lineRequires other) ↔
        (∃ other ∈ before ++ after, name ∈ lineRequires other) ∨ name ∈ lineRequires between := by
    intro between name
    simp only [List.mem_append, List.mem_cons, or_and_right, exists_or, exists_eq_left]
    rw [or_comm (a := name ∈ lineRequires between), or_assoc]
  have hwith : ∀ name, name ∈ Assoc.keys (requirements (before ++ line :: after)) ↔
      (∃ other ∈ before ++ after, name ∈ lineRequires other) ∨
        name ∈ lineRequires (laterClauses line) ∨
        name ∈ listedNames (Text.intercalate ['\n'] (before ++ line :: after)) := by
    intro name
    rw [mem_keys_requirements, hcalls, lineRequires_of_comment hline, or_assoc]
  have hwithout : ∀ name, name ∈ Assoc.keys (requirements (before ++ empty :: after)) ↔
      (∃ other ∈ before ++ after, name ∈ lineRequires other) ∨
        name ∈ listedNames (Text.intercalate ['\n'] (before ++ empty :: after)) := by
    intro name
    have hnone : lineRequires empty = [] := by rcases hempty with rfl | rfl <;> rfl
    rw [mem_keys_requirements, hcalls, hnone]
    simp
  have hsame (hlists : listedNames (Text.intercalate ['\n'] (before ++ line :: after)) =
        listedNames (Text.intercalate ['\n'] (before ++ empty :: after))) :
      (∀ name, name ∈ Assoc.keys (requirements (before ++ line :: after)) ↔
          name ∈ Assoc.keys (requirements (before ++ empty :: after))) ↔
        ∀ name ∈ lineRequires (laterClauses line),
          name ∈ Assoc.keys (requirements (before ++ empty :: after)) := by
    constructor
    · intro hsame name hname
      exact (hsame name).1 ((hwith name).2 (.inr (.inl hname)))
    · intro hlater name
      rw [hwith, hlists]
      constructor
      · rintro (hother | hname | hlisted)
        · exact (hwithout name).2 (.inl hother)
        · exact hlater name hname
        · exact (hwithout name).2 (.inr hlisted)
      · intro hname
        exact ((hwithout name).1 hname).imp_right .inr
  refine ⟨hwith, hwithout, hsame, fun hnone => ?_⟩
  have hlists := listedNames_of_none (hnone line (by simp))
  have hlists' := listedNames_of_none (hnone empty (by simp))
  grind

/-- A call in a comment that asks for what a list after it asks for too. -/
theorem requirements_of_comment_listed :
    IsCommented " // one; require('b');".toList ∧
      ∀ name,
        name ∈ Assoc.keys (requirements [" // one; require('b');".toList,
          "define(['b'], f);".toList]) ↔
        name ∈ Assoc.keys (requirements ["".toList, "define(['b'], f);".toList]) := by
  have hline : IsCommented " // one; require('b');".toList := by decide
  obtain ⟨-, -, hsame, -⟩ :=
    requirements_of_comment hline (.inl rfl) [] ["define(['b'], f);".toList]
  exact ⟨hline, (hsame (by decide)).2 (by decide)⟩

/-- Comments that are not without effect: a call after a semicolon, a list, and a comment inside of
a list. -/
theorem comments_with_effect :
    (IsCommented "// a; require('b');".toList ∧
      Assoc.keys (requirements ["// a; require('b');".toList]) = ["b"] ∧
      Assoc.keys (requirements ["".toList]) = []) ∧
    (IsCommented "// define(['b'])".toList ∧
      Assoc.keys (requirements ["// define(['b'])".toList]) = ["b"]) ∧
    IsCommented "// c".toList ∧
      Assoc.keys (requirements ["define(['a',".toList, "// c".toList, "'b'])".toList]) = ["a"] ∧
      Assoc.keys (requirements ["define(['a',".toList, "".toList, "'b'])".toList]) = ["a", "b"] := by
  decide

end AddonBuilder.Linker
