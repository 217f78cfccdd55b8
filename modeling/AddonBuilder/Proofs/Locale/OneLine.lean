import AddonBuilder.Proofs.Locale.Continued

/-!
# Values on one line

A value without escapes is written with escapes of its own before these are read.
-/

namespace AddonBuilder.Locale

open Json List

/-- Whether an odd number of backslashes ends a text; `odd` says so of what comes before it. -/
def endsOdd (odd : Bool) (t : Text) : Bool := t.foldl (fun odd p => p = 0x5C && !odd) odd

theorem spelled_cons_eq_iff {odd : Bool} {p : CodePoint} {t : Text} :
    spelled odd (p :: t) = p :: t ↔ (odd → p.val < 0x100) ∧ spelled (p = 0x5C && !odd) t = t := by
  by_cases hp : odd ∧ 0x100 ≤ p.val
  · obtain ⟨rfl, hlarge⟩ := hp
    obtain ⟨hne, units, hunits, -⟩ := exists_escapeUnits_eq hlarge
    simp [spelled, hlarge, hunits, hne.symm, Nat.not_lt.2 hlarge]
  · have hkept : (odd && decide (0x100 ≤ p.val)) = false := by
      simpa using fun hodd : odd => not_and.1 hp hodd
    have hsmall : odd → p.val < 0x100 := fun hodd => Nat.not_le.1 (not_and.1 hp hodd)
    simpa [spelled, hkept] using fun _ => hsmall

/-- **What is kept.**  A text comes back if no code point above `FF` stands after an odd number of
backslashes. -/
theorem spelled_eq_iff (odd : Bool) (t : Text) :
    spelled odd t = t ↔
      ∀ before p after, t = before ++ p :: after → endsOdd odd before → p.val < 0x100 := by
  induction t generalizing odd with
  | nil => simp [spelled]
  | cons p t ih =>
    rw [spelled_cons_eq_iff, ih]
    constructor
    · rintro ⟨hfirst, hrest⟩ before q after hsplit hodd
      cases before with
      | nil =>
        cases hsplit
        exact hfirst hodd
      | cons p' before =>
        cases hsplit
        exact hrest before q after rfl hodd
    · intro h
      refine ⟨fun hodd => h [] p t rfl hodd, fun before q after hsplit hodd => ?_⟩
      exact h (p :: before) q after (by rw [hsplit, cons_append]) hodd

theorem spelled_ne_nil (odd : Bool) (p : CodePoint) (t : Text) : spelled odd (p :: t) ≠ [] := by
  rw [spelled]
  refine append_ne_nil_of_left_ne_nil ?_ _
  split
  · rename_i hlarge
    obtain ⟨-, units, hunits, -⟩ := exists_escapeUnits_eq (p := p) (by simp_all)
    simp [hunits]
  · exact cons_ne_nil p []

theorem isContinued_append_of_ne_nil (t : Text) {u : Text} (hu : u ≠ []) :
    isContinued (t ++ u) = isContinued u := by
  rw [isContinued, getLast?_append_of_ne_nil _ hu]
  rfl

/-- A text that is not continued is not so as it is read back, since no escape ends in a backslash. -/
theorem isContinued_spelled (odd : Bool) (t : Text) : isContinued (spelled odd t) = isContinued t := by
  induction t generalizing odd with
  | nil => rfl
  | cons p t ih =>
    cases t with
    | nil =>
      rw [spelled, spelled, append_nil]
      split
      · rename_i hlarge
        obtain ⟨hp, units, hunits, hne, hplain⟩ := exists_escapeUnits_eq (p := p) (by simp_all)
        have hlast : isContinued units = false := by
          have hend : units.getLast hne ≠ 0x5C := fun h => hplain (h ▸ getLast_mem hne)
          simpa [isContinued, getLast?_eq_some_getLast hne] using hend
        rw [hunits, ← singleton_append, isContinued_append_of_ne_nil _ hne, hlast]
        simpa [isContinued] using hp
      · rfl
    | cons q t =>
      rw [spelled, isContinued_append_of_ne_nil _ (spelled_ne_nil _ q t), ih,
        ← singleton_append (x := p), isContinued_append_of_ne_nil _ (cons_ne_nil q t)]

theorem PlainKey.parseFrom_lastLine {key v : Text} (hkey : PlainKey key) (hfeed : 0x0A ∉ v)
    (hstart : v.dropWhile isWide = v) (htrim : Text.trimEnd isWide v = v)
    (hend : isContinued v = false) (hplain : Unescaped v) :
    parseFrom 1 [] [lastLine (key ++ 0x3D :: v)] = .ok [(key, .text (spelled false v))] := by
  have hline : lastLine (key ++ 0x3D :: v) = key ++ 0x3D :: (v ++ [0x0A]) := by simp [lastLine]
  have hvalue : ((v ++ [0x0A]).dropWhile isSpace).takeWhile (· ≠ 0x0A) = v := by
    cases v with
    | nil => rfl
    | cons c v =>
      have hc : isSpace c = false := by
        by_contra hspace
        have hwide := isWide_of_isSpace (by simpa using hspace)
        have hlen := congrArg length hstart
        rw [dropWhile_cons_of_pos hwide] at hlen
        have := (dropWhile_sublist (l := v) isWide).length_le
        simp at hlen
        omega
      rw [cons_append, Text.dropWhile_cons_of_not hc]
      exact takeWhile_not_feed hfeed []
  have hempty : key.isEmpty = false := by simpa using hkey.ne_nil
  rw [hline, parseFrom]
  simp only [hkey.isSkipped_eq_false, hkey.keyValue?_eq, hvalue, htrim,
    unescape?_of_unescaped hplain, hempty, isContinued_spelled, hend, Bool.false_eq_true, if_false]
  rw [parseFrom]
  rfl

theorem PlainKey.parse_lastLine {key v : Text} (hkey : PlainKey key) (hfeed : 0x0A ∉ v)
    (hstart : v.dropWhile isWide = v) (htrim : Text.trimEnd isWide v = v)
    (hend : isContinued v = false) (hplain : Unescaped v) :
    parse [lastLine (key ++ 0x3D :: v)] = .ok [(key, .text (spelled false v))] := by
  rw [parse, hkey.parseFrom_lastLine hfeed hstart htrim hend hplain, ok_bind,
    hkey.normalisePlurals_singleton]
  rfl

/-- **Values on one line.**  A value in which no backslash stands before a `u` or `U` is read as it is,
but for the code points above `FF` after an odd number of backslashes, which become escapes.  So it is
kept exactly if there are none. -/
theorem parse_oneLine {key v : Text} (hkey : PlainKey key) (hfeed : 0x0A ∉ v)
    (hstart : v.dropWhile isWide = v) (htrim : Text.trimEnd isWide v = v)
    (hend : isContinued v = false) (hplain : Unescaped v) :
    parse [lastLine (key ++ 0x3D :: v)] = .ok [(key, .text (spelled false v))] ∧
      (spelled false v = v ↔
        ∀ before p after, v = before ++ p :: after → endsOdd false before = true → p.val < 0x100) :=
  ⟨hkey.parse_lastLine hfeed hstart htrim hend hplain, spelled_eq_iff false v⟩

theorem plainKey_a : PlainKey "a" := ⟨by decide, forall_mem_singleton.2 (by decide), by decide⟩

/-- After two backslashes a code point is kept. -/
theorem parse_two_backslashes :
    PlainKey "a" ∧ Unescaped "\\\\☃" ∧ parse ["a=\\\\☃\n"] = .ok [("a", .text "\\\\☃")] := by
  have hplain : Unescaped "\\\\☃" := by decide
  obtain ⟨hparse, -⟩ := parse_oneLine plainKey_a (by decide) (by decide) (by decide) (by decide) hplain
  exact ⟨plainKey_a, hplain, hparse⟩

/-- After one backslash it is not. -/
theorem value_not_kept :
    PlainKey "a" ∧ Unescaped "\\☃" ∧ parse ["a=\\☃\n"] = .ok [("a", .text "\\\\u2603")] := by
  have hplain : Unescaped "\\☃" := by decide
  exact ⟨plainKey_a, hplain,
    plainKey_a.parse_lastLine (by decide) (by decide) (by decide) (by decide) hplain⟩

end AddonBuilder.Locale
