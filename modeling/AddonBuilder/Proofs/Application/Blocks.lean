import AddonBuilder.Application.Profile
import AddonBuilder.Proofs.Json.Printable
import AddonBuilder.Proofs.Text.Strings

/-!
# Blocks of settings as texts and as lines

Blocks are added to the settings of a profile as text and taken away as lines.
-/

namespace AddonBuilder.Application

open Text List

variable {k : Strings} {body lines : List String} {line : String} {α ε : Type}

/-- A block with given lines between its marks. -/
def blockText (body : List String) : String :=
  "\n" ++ endedLines (blockStart :: body ++ [blockEnd])

def withBlocks (text : String) (bodies : List (List String)) : String :=
  bodies.foldl (fun t body => t ++ blockText body) text

/-- The line does not start or end a block. -/
def Unmarked (line : String) : Prop := line ≠ blockStart ∧ line ≠ blockEnd

instance (line : String) : Decidable (Unmarked line) := inferInstanceAs (Decidable (_ ∧ _))

/-- A line of printable letters of ASCII, which every platform holds in the same way. -/
def Plain (line : String) : Prop := ∀ c ∈ line.toList, 0x20 ≤ c.toNat ∧ c.toNat ≤ 0x7E

instance (line : String) : Decidable (Plain line) :=
  decidableBAll (fun c : Char => 0x20 ≤ c.toNat ∧ c.toNat ≤ 0x7E) line.toList

theorem Plain.oneLine (h : Plain line) : k.OneLine line := by
  intro c hc
  have hprintable := h c hc
  have hbreak : isLineBreak c.toNat = false := by
    simp only [isLineBreak]
    simp
    omega
  refine Bool.eq_false_iff.2 fun heq => ?_
  rw [Strings.isLineBreak_of_lineCode heq] at hbreak
  cases hbreak

/-- Lines that may stand between marks. -/
structure Body (lines : List String) : Prop where
  plain : ∀ line ∈ lines, Plain line
  unmarked : ∀ line ∈ lines, Unmarked line

namespace Body

variable {body : List String}

theorem cons {line : String} (hline : Plain line) (hmark : Unmarked line) (h : Body body) :
    Body (line :: body) :=
  ⟨forall_mem_cons.2 ⟨hline, h.plain⟩, forall_mem_cons.2 ⟨hmark, h.unmarked⟩⟩

theorem plain_block (h : Body body) : ∀ line ∈ blockStart :: body ++ [blockEnd], Plain line := by
  have hstart : Plain blockStart := by decide
  have hend : Plain blockEnd := by decide
  intro line hline
  rcases mem_append.1 hline with hline | hline
  · rcases mem_cons.1 hline with rfl | hline
    · exact hstart
    · exact h.plain line hline
  · obtain rfl := mem_singleton.1 hline
    exact hend

theorem oneLine_block (h : Body body) : ∀ line ∈ blockStart :: body ++ [blockEnd], k.OneLine line :=
  fun line hline => (h.plain_block line hline).oneLine

theorem ascii_blockText (h : Body body) : ∀ c ∈ (blockText body).toList, c.toNat < 0x80 := by
  intro c hc
  rw [blockText, String.toList_append, mem_append] at hc
  rcases hc with hc | hc
  · obtain rfl := mem_singleton.1 hc
    decide
  · rcases mem_endedLines hc with rfl | ⟨line, hline, hc⟩
    · decide
    · exact Nat.lt_of_le_of_lt (h.plain_block line hline c hc).2 (by decide)

end Body

theorem append_blockText (text : String) (body : List String) :
    text ++ blockText body = text ++ "\n" ++ endedLines (blockStart :: body ++ [blockEnd]) := by
  rw [blockText, String.append_assoc]

/-- A block adds its own lines, and ends the line before it. -/
theorem lines_blockText (text : String) (h : Body body) :
    k.lines (text ++ blockText body) =
      k.lines (text ++ "\n") ++ (blockStart :: body ++ [blockEnd]) := by
  rw [append_blockText, Strings.lines_append, Strings.lines_endedLines h.oneLine_block]

theorem withBlocks_concat (text : String) (bodies : List (List String)) (body : List String) :
    withBlocks text (bodies ++ [body]) = withBlocks text bodies ++ blockText body := by
  rw [withBlocks, foldl_append]
  rfl

/-- Line breaks are changed outside blocks only. -/
theorem withLineFeeds_withBlocks (text : String) {bodies : List (List String)}
    (h : ∀ body ∈ bodies, Body body) :
    k.withLineFeeds (withBlocks text bodies) = withBlocks (k.withLineFeeds text) bodies := by
  induction bodies using reverseRecOn with
  | nil => rfl
  | append_singleton bodies body ih =>
    have hbody : Body body := h body (by simp)
    have hbodies : ∀ b ∈ bodies, Body b := fun b hb => h b (mem_append_left _ hb)
    rw [withBlocks_concat, withBlocks_concat, append_blockText,
      Strings.withLineFeeds_append _ hbody.oneLine_block, ih hbodies, ← append_blockText]

theorem findIdx?_reverse_eq_none (h : line ∉ lines) : lines.reverse.findIdx? (· = line) = none := by
  grind

theorem lastIndex?_eq_none (h : line ∉ lines) : lastIndex? lines line = none := by
  rw [lastIndex?, findIdx?_reverse_eq_none h, Option.map_none]

theorem lastIndex?_append {after : List String} (h : line ∉ after)
    (before : List String) : lastIndex? (before ++ line :: after) line = some before.length := by
  have hindex : (before ++ line :: after).reverse.findIdx? (· = line) = some after.length := by
    simp [findIdx?_append, findIdx?_reverse_eq_none h, findIdx?_cons]
  rw [lastIndex?, hindex, Option.map_some, length_append, length_cons]
  congr 1
  omega

theorem withoutLastBlock_append (lines : List String) (h : Body body) :
    withoutLastBlock (lines ++ (blockStart :: body ++ [blockEnd])) = .ok (some lines) := by
  have hstart : lastIndex? (lines ++ (blockStart :: body ++ [blockEnd])) blockStart =
      some lines.length := by
    have hafter : blockStart ∉ body ++ [blockEnd] := by
      intro hmem
      rcases mem_append.1 hmem with hmem | hmem
      · exact (h.unmarked _ hmem).1 rfl
      · exact absurd (mem_singleton.1 hmem) (by decide)
    exact lastIndex?_append hafter lines
  have hend : lastIndex? (lines ++ (blockStart :: body ++ [blockEnd])) blockEnd =
      some (lines ++ blockStart :: body).length := by
    rw [← append_assoc]
    exact lastIndex?_append (not_mem_nil) _
  have hbefore : lines.length < (lines ++ blockStart :: body).length := by simp
  unfold withoutLastBlock
  rw [hstart, hend]
  dsimp only
  rw [if_pos hbefore, take_left, drop_eq_nil_of_le (by simp; omega), append_nil]

theorem withoutLastBlock_unmarked (h : ∀ line ∈ lines, Unmarked line) :
    withoutLastBlock lines = .ok none := by
  unfold withoutLastBlock
  rw [lastIndex?_eq_none fun hmem => (h _ hmem).1 rfl,
    lastIndex?_eq_none fun hmem => (h _ hmem).2 rfl]

/-! ## What is written for settings -/

theorem characters_of_printable {t : Text} (h : ∀ u ∈ t, u.IsPrintable) : t.Characters := by
  intro u hu
  have hprintable := h u hu
  rw [CodePoint.isSurrogate_eq_false_iff]
  exact .inl (Nat.lt_of_le_of_lt hprintable.2 (by decide))

def settingLine (name value : Text) : String :=
  "user_pref(" ++ name.display ++ ", " ++ value.display ++ ");"

section SettingLine

variable {name value : Text} (hname : ∀ u ∈ name, u.IsPrintable)
  (hvalue : ∀ u ∈ value, u.IsPrintable)

include hname hvalue

theorem ofString_settingLine :
    ofString (settingLine name value) =
      ofString "user_pref(" ++ name ++ ofString ", " ++ value ++ ofString ");" := by
  simp only [settingLine, ofString_append, ofString_display (characters_of_printable hname),
    ofString_display (characters_of_printable hvalue)]

theorem plain_settingLine : Plain (settingLine name value) := by
  have hopen := Json.printable_of_all (t := ofString "user_pref(") (by decide)
  have hcomma := Json.printable_of_all (t := ofString ", ") (by decide)
  have hclose := Json.printable_of_all (t := ofString ");") (by decide)
  have hprintable : ∀ u ∈ ofString (settingLine name value), u.IsPrintable := by
    rw [ofString_settingLine hname hvalue]
    grind
  exact fun c hc => hprintable _ (mem_map_of_mem hc)

end SettingLine

theorem unmarked_settingLine (name value : Text) : Unmarked (settingLine name value) := by
  have hhead : (settingLine name value).toList.head? = some 'u' := by
    rw [settingLine, String.append_assoc, String.append_assoc, String.append_assoc,
      String.toList_append]
    rfl
  constructor
  · intro heq
    rw [heq] at hhead
    exact absurd hhead (by decide)
  · intro heq
    rw [heq] at hhead
    exact absurd hhead (by decide)

variable {l : List α} {f : α → Except ε Text}

/-- Lines that are computed one by one are the lines of a block. -/
theorem exists_body (h : ∀ a ∈ l, ∃ line, f a = .ok (ofString (line ++ "\n")) ∧ Plain line ∧
      Unmarked line) :
    ∃ body lines, Body body ∧ l.mapM f = .ok lines ∧
      lines.flatten = ofString (endedLines body) := by
  induction l with
  | nil => exact ⟨[], [], ⟨forall_mem_nil _, forall_mem_nil _⟩, rfl, rfl⟩
  | cons a l ih =>
    obtain ⟨line, hf, hline, hmark⟩ := h a mem_cons_self
    obtain ⟨body, lines, hbody, hlines, hflat⟩ := ih fun b hb => h b (mem_cons_of_mem _ hb)
    refine ⟨line :: body, ofString (line ++ "\n") :: lines, hbody.cons hline hmark, ?_, ?_⟩
    · rw [mapM_cons, hf, hlines]
      rfl
    · rw [flatten_cons, hflat, endedLines_cons, ← ofString_append]

theorem exists_block {g : List Text → Except ε Text}
    (hf : ∀ a ∈ l, ∃ line, f a = .ok (ofString (line ++ "\n")) ∧ Plain line ∧ Unmarked line)
    (hg : ∀ lines, g lines = .ok (ofString ("\n" ++ blockStart ++ "\n") ++ lines.flatten ++
      ofString (blockEnd ++ "\n"))) :
    ∃ body, Body body ∧ (l.mapM f >>= g) = .ok (ofString (blockText body)) := by
  obtain ⟨body, lines, hbody, hlines, hflat⟩ := exists_body hf
  have htext : blockText body =
      "\n" ++ blockStart ++ "\n" ++ endedLines body ++ (blockEnd ++ "\n") := by
    rw [blockText, cons_append, endedLines_cons, endedLines_append,
      endedLines_cons, endedLines_nil]
    simp only [String.append_assoc, String.append_empty]
  refine ⟨body, hbody, ?_⟩
  rw [hlines, ok_bind, hg, hflat, htext, ofString_append _ (blockEnd ++ "\n"),
    ofString_append _ (endedLines body)]

/-- **Settings are written as a block, whatever their names and values.** -/
theorem exists_settingsBlock (s : Settings) :
    ∃ body, Body body ∧ settingsBlock s = .ok (ofString (blockText body)) := by
  unfold settingsBlock
  refine exists_block ?_ ?_
  · rintro ⟨name, v⟩ -
    obtain ⟨n, hn, hname⟩ := (Json.Value.text name).exists_encode
    obtain ⟨t, ht, hvalue⟩ := v.exists_encode
    refine ⟨settingLine n t, ?_, plain_settingLine hname hvalue, unmarked_settingLine n t⟩
    dsimp only
    rw [hn, ok_bind, ht, ok_bind, ofString_append, ofString_settingLine hname hvalue,
      append_assoc _ (ofString ");")]
    rfl
  · intro lines
    simp only [ofString_append, append_assoc]
    rfl

end AddonBuilder.Application
