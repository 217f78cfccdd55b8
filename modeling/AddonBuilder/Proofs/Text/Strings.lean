import AddonBuilder.Proofs.Text.Lines
import AddonBuilder.Proofs.Text.Utf8
import AddonBuilder.Text.Strings

/-!
# Strings of a platform and their lines

What a file is read as is written back as the same bytes (`write_of_read?`), and so is every string
of the same letters and letters of ASCII (`holds_of_read?`).
-/

namespace AddonBuilder

open List Text Codec

theorem toList_lineFeed : "\n".toList = ['\n'] := rfl

/-- Lines, each with a line feed after it. -/
def endedLines (lines : List String) : String :=
  String.ofList (lines.flatMap fun line => line.toList ++ ['\n'])

@[simp] theorem endedLines_nil : endedLines [] = "" := rfl

theorem endedLines_cons (line : String) (lines : List String) :
    endedLines (line :: lines) = line ++ "\n" ++ endedLines lines := by
  rw [← String.toList_inj]
  simp [endedLines]

theorem endedLines_append (lines more : List String) :
    endedLines (lines ++ more) = endedLines lines ++ endedLines more := by
  rw [← String.toList_inj]
  simp [endedLines]

theorem mem_endedLines {lines : List String} {c : Char} (h : c ∈ (endedLines lines).toList) :
    c = '\n' ∨ ∃ line ∈ lines, c ∈ line.toList := by
  rw [endedLines, String.toList_ofList] at h
  grind

theorem toList_joinStrings (lines : List String) :
    (joinStrings "\n" lines).toList = ['\n'].intercalate (lines.map String.toList) := by
  rw [joinStrings, String.toList_intercalate]
  rfl

theorem joinStrings_concat {lines : List String} (hne : lines ≠ []) :
    joinStrings "\n" lines ++ "\n" = endedLines lines := by
  rw [← String.toList_inj, String.toList_append, toList_joinStrings, toList_lineFeed,
    intercalate_concat (by simpa using hne), endedLines, String.toList_ofList, flatMap_map]

namespace Strings

variable {k : Strings} {s t line : String} {bytes more : Bytes}

/-! ## Reading and writing -/

theorem read?_bytes_write (h : ∀ c ∈ s.toList, c.toNat < 0x100) :
    Strings.bytes.read? (Strings.bytes.write s) = some s := by
  have hsame : (s.toList.map fun c => c.toNat.toUInt8).map (fun b => Char.ofNat b.toNat) =
      s.toList := by
    rw [map_map]
    refine (map_congr_left fun c hc => ?_).trans (map_id _)
    rw [Function.comp_apply, Nat.toUInt8, UInt8.toNat_ofNat_of_lt' (h c hc), Char.ofNat_toNat, id]
  rw [read?, write, hsame, String.ofList_toList]

theorem toNat_ofNat_byte (b : UInt8) : (Char.ofNat b.toNat).toNat = b.toNat := by
  have hbyte := b.toNat_lt
  have hvalid : b.toNat.isValidChar := .inl (by omega)
  rw [Char.ofNat, dif_pos hvalid]
  rfl

/-- **What a file is read as is written as the bytes of the file.** -/
theorem write_of_read? (h : k.read? bytes = some s) : k.write s = bytes := by
  cases k with
  | bytes =>
    obtain rfl := Option.some.inj h
    rw [write, String.toList_ofList, map_map]
    refine (map_congr_left fun b _ => ?_).trans (map_id bytes)
    rw [Function.comp_apply, toNat_ofNat_byte]
    exact UInt8.ofNat_toNat
  | characters => exact (stringOfUtf8?_eq_some_iff.1 h).symm

/-- The strings that are read back as they were written. -/
def Holds (k : Strings) (s : String) : Prop := k.read? (k.write s) = some s

/-- A string can be held if its characters were read or are ASCII. -/
theorem holds_of_read? (h : k.read? bytes = some s)
    (ht : ∀ c ∈ t.toList, c ∈ s.toList ∨ c.toNat < 0x80) : k.Holds t := by
  cases k with
  | bytes =>
    obtain rfl := Option.some.inj h
    refine read?_bytes_write fun c hc => ?_
    rcases ht c hc with hc | hc
    · obtain ⟨b, -, rfl⟩ := mem_map.1 (String.toList_ofList ▸ hc)
      rw [toNat_ofNat_byte]
      exact b.toNat_lt
    · omega
  | characters => exact stringOfUtf8?_utf8OfString t

theorem write_ascii (h : ∀ c ∈ s.toList, c.toNat < 0x80) : k.write s = utf8OfString s := by
  cases k with
  | bytes =>
    have hletter : ∀ c ∈ s.toList, String.utf8EncodeChar c = [c.toNat.toUInt8] := by
      intro c hc
      have hascii : c.val.toNat ≤ 0x7F := Nat.le_of_lt_succ (h c hc)
      rw [String.utf8EncodeChar, if_pos hascii]
      rfl
    rw [write, utf8OfString_eq, flatMap_congr hletter, ← map_eq_flatMap]
  | characters => rfl

theorem read?_ascii (h : ∀ c ∈ s.toList, c.toNat < 0x80) : k.read? (utf8OfString s) = some s := by
  have hempty : k.read? [] = some "" := by cases k <;> rfl
  rw [← write_ascii (k := k) h]
  exact holds_of_read? hempty fun c hc => .inr (h c hc)

theorem read?_append (hs : k.read? bytes = some s) (ht : k.read? more = some t) :
    k.read? (bytes ++ more) = some (s ++ t) := by
  cases k with
  | bytes =>
    obtain rfl := Option.some.inj hs
    obtain rfl := Option.some.inj ht
    rw [read?, map_append, String.ofList_append]
  | characters => exact stringOfUtf8?_append hs ht

/-! ## Lines -/

theorem lineCode_lineFeed (k : Strings) : k.lineCode '\n' = 0xA := by
  cases k <;> rfl

/-- A letter that ends lines in strings of bytes ends them in strings of characters. -/
theorem isLineBreak_of_lineCode {c : Char} (h : isLineBreak (k.lineCode c)) :
    isLineBreak c.toNat := by
  cases k with
  | bytes =>
    rw [lineCode] at h
    split at h
    · exact h
    · cases h
  | characters => exact h

def OneLine (k : Strings) (s : String) : Prop := ∀ c ∈ s.toList, isLineBreak (k.lineCode c) = false

def withLineFeeds (k : Strings) (s : String) : String := joinStrings "\n" (k.lines (s ++ "\n"))

theorem lines_append (k : Strings) (s rest : String) :
    k.lines (s ++ "\n" ++ rest) = k.lines (s ++ "\n") ++ k.lines rest := by
  simp only [lines, String.toList_append, toList_lineFeed, ← map_append]
  rw [append_assoc, singleton_append, splitLines_append k.lineCode_lineFeed]

theorem lines_endedLines {lines : List String} (h : ∀ line ∈ lines, k.OneLine line) :
    k.lines (endedLines lines) = lines := by
  have hflat : (lines.map String.toList).flatMap (· ++ ['\n']) =
      lines.flatMap fun line => line.toList ++ ['\n'] := by
    rw [flatMap_map]
  rw [Strings.lines, endedLines, String.toList_ofList, ← hflat,
    splitLines_flatMap k.lineCode_lineFeed]
  · simp
  · intro line hline
    obtain ⟨s, hs, rfl⟩ := mem_map.1 hline
    exact h s hs

theorem oneLine_of_mem_lines (h : line ∈ k.lines s) : k.OneLine line := by
  obtain ⟨l, hl, rfl⟩ := mem_map.1 h
  rw [OneLine, String.toList_ofList]
  exact fun c hc => (mem_of_mem_splitLines hl c hc).2

theorem lines_concat_ne_nil (k : Strings) (s : String) : k.lines (s ++ "\n") ≠ [] := by
  intro h
  rw [lines, map_eq_nil_iff, String.toList_append] at h
  exact splitLines_concat_ne_nil s.toList h

theorem mem_lines_of_concat (h : line ∈ k.lines (s ++ "\n")) : line ∈ k.lines s ∨ line = "" := by
  obtain ⟨l, hl, rfl⟩ := mem_map.1 h
  rw [String.toList_append, toList_lineFeed] at hl
  rcases splitLines_concat k.lineCode_lineFeed s.toList with hsame | hmore
  · exact .inl (mem_map_of_mem (hsame ▸ hl))
  · rw [hmore, mem_append, mem_singleton] at hl
    rcases hl with hl | rfl
    · exact .inl (mem_map_of_mem hl)
    · exact .inr rfl

theorem mem_lines_concat (h : line ∈ k.lines s) : line ∈ k.lines (s ++ "\n") := by
  obtain ⟨l, hl, rfl⟩ := mem_map.1 h
  refine mem_map_of_mem ?_
  rw [String.toList_append, toList_lineFeed]
  rcases splitLines_concat k.lineCode_lineFeed s.toList with hsame | hmore
  · exact hsame ▸ hl
  · exact hmore ▸ mem_append_left _ hl

theorem mem_withLineFeeds {c : Char} (h : c ∈ (k.withLineFeeds s).toList) :
    c ∈ s.toList ∨ c = '\n' := by
  rw [withLineFeeds, toList_joinStrings] at h
  rcases mem_intercalate h with rfl | ⟨line, hline, hc⟩
  · exact .inr rfl
  · obtain ⟨shown, hshown, rfl⟩ := mem_map.1 hline
    obtain ⟨l, hl, rfl⟩ := mem_map.1 hshown
    rw [String.toList_ofList] at hc
    simpa using (mem_of_mem_splitLines hl c hc).1

theorem withLineFeeds_concat (k : Strings) (s : String) :
    k.withLineFeeds s ++ "\n" = endedLines (k.lines (s ++ "\n")) :=
  joinStrings_concat (k.lines_concat_ne_nil s)

theorem lines_withLineFeeds (k : Strings) (s : String) :
    k.lines (k.withLineFeeds s ++ "\n") = k.lines (s ++ "\n") := by
  rw [withLineFeeds_concat, lines_endedLines fun line hline => oneLine_of_mem_lines hline]

theorem withLineFeeds_idem (k : Strings) (s : String) :
    k.withLineFeeds (k.withLineFeeds s) = k.withLineFeeds s := by
  rw [withLineFeeds, lines_withLineFeeds, ← withLineFeeds]

/-- What is added after a line feed is not changed if it is made of lines with line feeds. -/
theorem withLineFeeds_append (s : String) {lines : List String}
    (h : ∀ line ∈ lines, k.OneLine line) :
    k.withLineFeeds (s ++ "\n" ++ endedLines lines) =
      k.withLineFeeds s ++ "\n" ++ endedLines lines := by
  have hlines : k.lines (s ++ "\n" ++ endedLines lines ++ "\n") =
      k.lines (s ++ "\n") ++ (lines ++ [""]) := by
    have hended : endedLines lines ++ "\n" = endedLines (lines ++ [""]) := by
      rw [endedLines_append, endedLines_cons, endedLines_nil]
      simp
    rw [String.append_assoc, hended, lines_append, lines_endedLines]
    intro line hline
    rcases mem_append.1 hline with hline | hline
    · exact h line hline
    · obtain rfl := mem_singleton.1 hline
      exact forall_mem_nil _
  have hconcat : k.withLineFeeds (s ++ "\n" ++ endedLines lines) ++ "\n" =
      k.withLineFeeds s ++ "\n" ++ endedLines lines ++ "\n" := by
    rw [withLineFeeds_concat, hlines, endedLines_append, ← withLineFeeds_concat, endedLines_append,
      endedLines_cons, endedLines_nil]
    simp [String.append_assoc]
  rw [← String.toList_inj, String.toList_append, String.toList_append] at hconcat
  exact String.toList_inj.1 (append_cancel_right hconcat)

/-- **A string survives exactly if it has no line break but the line feed.** -/
theorem withLineFeeds_eq_iff (k : Strings) (s : String) :
    k.withLineFeeds s = s ↔ ∀ c ∈ s.toList, isLineBreak (k.lineCode c) → c = '\n' := by
  rw [← intercalate_splitLines_eq_iff k.lineCode_lineFeed, ← String.toList_inj,
    withLineFeeds, toList_joinStrings, lines, String.toList_append, toList_lineFeed, map_map]
  simp [Function.comp_def]

end Strings

end AddonBuilder
