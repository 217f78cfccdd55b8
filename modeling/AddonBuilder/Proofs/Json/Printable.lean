import AddonBuilder.Proofs.Json.WrittenText

/-!
# The letters of a written value

A writer that keeps to ASCII escapes everything but the **printable** characters, from the space to
the tilde.
-/

namespace AddonBuilder

open List

/-- A character of ASCII that is no control character. -/
def CodePoint.IsPrintable (p : CodePoint) : Prop := 0x20 ≤ p.val ∧ p.val ≤ 0x7E

instance (p : CodePoint) : Decidable p.IsPrintable := inferInstanceAs (Decidable (_ ∧ _))

namespace Json

theorem printable_of_all {t : Text} (h : (t.all fun u => u.IsPrintable)) :
    ∀ u ∈ t, u.IsPrintable := by
  simpa using h

theorem printable_of_graphic {u : CodePoint} (h : Lexeme.Graphic u) : u.IsPrintable :=
  ⟨Nat.le_of_lt h.1, Nat.le_of_lt_succ h.2.1⟩

theorem printable_numericEscape {n : Nat} (hn : n < 0x10000) :
    ∀ u ∈ numericEscape n, u.IsPrintable := by
  have hdigit : ∀ d < 16, (hexUnit d).IsPrintable := by decide
  rw [numericEscape_eq hn]
  simp only [forall_mem_cons]
  exact ⟨by decide, by decide, hdigit _ (by omega), hdigit _ (by omega), hdigit _ (by omega),
    hdigit _ (by omega), forall_mem_nil _⟩

theorem printable_commonEscape? {p : CodePoint} {e : Text} (h : commonEscape? p = some e) :
    ∀ u ∈ e, u.IsPrintable := by
  unfold commonEscape? at h
  split_ifs at h with _ _ _ _ _ _ _ hlow
  on_goal 8 =>
    obtain rfl := Option.some.inj h
    exact printable_numericEscape (Nat.lt_trans hlow (by decide))
  all_goals
    obtain rfl := Option.some.inj h
    exact printable_of_all (by decide)

theorem printable_escapePointAscii (p : CodePoint) : ∀ u ∈ escapePointAscii p, u.IsPrintable := by
  unfold escapePointAscii
  split
  · rename_i e he
    exact printable_commonEscape? he
  · rename_i hnone
    have hlow : 0x20 ≤ p.val := by
      unfold commonEscape? at hnone
      split_ifs at hnone with _ _ _ _ _ _ _ hlow
      exact Nat.le_of_not_lt hlow
    dsimp only
    split
    · rename_i hp
      exact forall_mem_singleton.2 ⟨hlow, hp⟩
    split
    · rename_i hp
      exact printable_numericEscape hp
    · exact forall_mem_append.2
        ⟨printable_numericEscape (by omega), printable_numericEscape (by omega)⟩

theorem printable_stringText (t : Text) : ∀ u ∈ stringText true t, u.IsPrintable := by
  unfold stringText
  refine forall_mem_cons.2 ⟨by decide, forall_mem_append.2 ⟨?_, ?_⟩⟩
  · intro u hu
    obtain ⟨p, -, hu⟩ := mem_flatMap.1 hu
    exact printable_escapePointAscii p u hu
  · exact forall_mem_singleton.2 (by decide)

theorem printable_numberText {x : Binary64} {t : Text} (h : numberText true x = .ok t) :
    ∀ u ∈ t, u.IsPrintable := by
  obtain ⟨t', ht', v, hderives, hsame⟩ := numberText_readsAs x
  obtain rfl : t' = t := by simpa [h] using ht'.symm
  intro u hu
  apply printable_of_graphic
  generalize hphrase : Phrase.document v = p at hderives
  cases hderives with
  | constant k => exact graphic_of_mem_word k u hu
  | integer hn => exact hn.graphic u hu
  | real hn hf he _ =>
    rcases mem_append.1 hu with hu | hu
    · exact hn.graphic u hu
    rcases mem_append.1 hu with hu | hu
    · exact hf.graphic u hu
    · exact he.graphic u hu
  | string _ | emptyArray _ | array _ _ | emptyObject _ | object _ _ =>
    cases hphrase
    cases hsame
  | lastItem _ _ | item _ _ _ _ | lastMember _ _ _ _ _ | member _ _ _ _ _ _ _ => cases hphrase

/-- A writer that keeps to a class of letters, to which the printable ones belong. -/
structure Options.Within (o : Options) (Q : CodePoint → Prop) : Prop where
  printable : ∀ u : CodePoint, u.IsPrintable → Q u
  strings : o.asciiOnly = true
  item : ∀ u ∈ o.itemSeparator, Q u
  key : ∀ u ∈ o.keySeparator, Q u
  lines : o.indent.isSome = true → Q 0x0A

section Writer

variable {o : Options} {Q : CodePoint → Prop} (ho : o.Within Q)

include ho

theorem within_newline {indent : Int} (hindent : o.indent = some indent) (level : Nat) :
    ∀ u ∈ Options.newline indent level, Q u := by
  intro u hu
  rcases mem_cons.1 hu with rfl | hu
  · exact ho.lines (by rw [hindent]; rfl)
  · rw [eq_of_mem_replicate hu]
    exact ho.printable _ (by decide)

/-- What stands around and between the parts of a container keeps to the letters, so the container
does if its parts do. -/
theorem within_bracketed (level : Nat) {left right : CodePoint} (hleft : Q left) (hright : Q right)
    {parts : List (List Text)} (hparts : ∀ part ∈ parts, ∀ u ∈ part.flatten, Q u) :
    ∀ u ∈ (bracketed o level left right parts).flatten, Q u := by
  have hopening : ∀ u ∈ (o.opening level).flatten, Q u := by
    unfold Options.opening
    split
    · exact forall_mem_nil _
    · rename_i indent hindent
      rw [flatten_singleton]
      exact within_newline ho hindent _
  have hclosing : ∀ u ∈ (o.closing level).flatten, Q u := by
    unfold Options.closing
    split
    · exact forall_mem_nil _
    · rename_i indent hindent
      rw [flatten_singleton]
      exact within_newline ho hindent _
  have hbetween : ∀ u ∈ o.between level, Q u := by
    unfold Options.between
    split
    · exact ho.item
    · rename_i indent hindent
      exact forall_mem_append.2 ⟨ho.item, within_newline ho hindent _⟩
  have hjoin : ∀ u ∈ (Text.join (o.between level) parts).flatten, Q u := by
    induction parts with
    | nil => exact forall_mem_nil _
    | cons part rest ih =>
      cases rest with
      | nil => exact hparts part mem_cons_self
      | cons next rest =>
        rw [Text.join, flatten_append, flatten_cons]
        rotate_left
        · exact cons_ne_nil next rest
        grind
  rw [flatten_bracketed]
  grind

end Writer

namespace Value

/-- **A value is written by the letters of its writer.** -/
theorem within_chunks {o : Options} {Q : CodePoint → Prop} (ho : o.Within Q)
    (hconstants : o.allowConstants) (v : Value) (level : Nat) :
    ∀ u ∈ (v.chunksOf o level).flatten, Q u := by
  have hletters : ∀ t : Text, (∀ u ∈ t, u.IsPrintable) → ∀ u ∈ [t].flatten, Q u := by
    intro t ht u hu
    rw [flatten_singleton] at hu
    exact ho.printable u (ht u hu)
  induction v using Value.treeInduction generalizing level with
  | null => exact hletters _ (printable_of_all (by decide))
  | bool b => cases b <;> exact hletters _ (printable_of_all (by decide))
  | int n =>
    exact hletters _ fun u hu => printable_of_graphic ((Lexeme.integer_ofInt n).graphic u hu)
  | float x =>
    obtain ⟨t, ht, -⟩ := numberText_readsAs x
    rw [chunksOf, chunks, hconstants, ht]
    exact hletters t (printable_numberText ht)
  | text t =>
    have hstring := hletters _ (printable_stringText t)
    rwa [← ho.strings] at hstring
  | array items ih =>
    by_cases hempty : items = []
    · subst hempty
      exact hletters _ (printable_of_all (by decide))
    rw [chunksOf_array hconstants hempty]
    refine within_bracketed ho level (ho.printable _ (by decide)) (ho.printable _ (by decide)) ?_
    intro part hpart
    obtain ⟨v, hv, rfl⟩ := mem_map.1 hpart
    exact ih v hv (level + 1)
  | object members ih =>
    by_cases hempty : members = []
    · subst hempty
      exact hletters _ (printable_of_all (by decide))
    rw [chunksOf_object hconstants hempty]
    refine within_bracketed ho level (ho.printable _ (by decide)) (ho.printable _ (by decide)) ?_
    intro part hpart
    obtain ⟨m, hm, rfl⟩ := mem_map.1 hpart
    rw [flatten_cons, flatten_cons, ho.strings]
    exact forall_mem_append.2 ⟨fun u hu => ho.printable u (printable_stringText m.1 u hu),
      forall_mem_append.2 ⟨ho.key, ih m ((ordered_perm o members).mem_iff.1 hm) (level + 1)⟩⟩

/-- Every value can be written in printable ASCII. -/
theorem exists_encode (v : Value) : ∃ t, v.encode {} = .ok t ∧ ∀ u ∈ t, u.IsPrintable := by
  have hwithin : ({} : Options).Within CodePoint.IsPrintable :=
    ⟨fun _ hu => hu, rfl, printable_of_all (by decide), printable_of_all (by decide),
      fun h => absurd h (by decide)⟩
  exact ⟨_, encode_eq rfl v, v.within_chunks hwithin rfl 0⟩

end Value

end Json

end AddonBuilder
