import AddonBuilder.Proofs.Json.Printable
import AddonBuilder.Proofs.Json.Units

/-!
# Reading, writing and reading again

A value that was read has no object with two members of one key, since the last of them has been
kept; so it can be written and is read again (`decode_encode_line`).
-/

namespace AddonBuilder.Json

open List

/-- What is said of the values in a phrase. -/
def Phrase.All {α : Type} (P : α → Prop) : Phrase α → Prop
  | .document a => P a
  | .items l => ∀ a ∈ l, P a
  | .members l => ∀ m ∈ l, P m.2

theorem Derives.distinctKeys {mode : Mode} {t : Text} {p : Phrase Value}
    (h : Derives mode Value.reading t p) : p.All Value.DistinctKeys := by
  induction h with
  | constant k => cases k <;> constructor
  | integer _ => exact .int _
  | real _ _ _ _ => exact .float _
  | string _ => exact .text _
  | emptyArray _ => exact .array nofun
  | array _ _ ih => exact .array ih
  | emptyObject _ => exact .object .nil nofun
  | object _ _ ih =>
    exact .object (Assoc.nodup_ofList _) fun m hm => ih m (Assoc.mem_of_mem_ofList hm)
  | lastItem _ _ ih => exact forall_mem_singleton.2 ih
  | item _ _ _ _ ih ih' => exact forall_mem_cons.2 ⟨ih, ih'⟩
  | lastMember _ _ _ _ _ ih => exact forall_mem_singleton.2 ih
  | member _ _ _ _ _ _ _ ih ih' => exact forall_mem_cons.2 ⟨ih, ih'⟩

theorem distinctKeys_of_decode {t : Text} {v : Value} (h : decode t = .ok v) : v.DistinctKeys := by
  obtain ⟨_, _, _, -, -, hderives, -⟩ := decode_eq_ok_iff.1 h
  exact hderives.distinctKeys

theorem distinctKeys_of_decodeUtf8 {bytes : Bytes} {v : Value} (h : decodeUtf8 bytes = .ok v) :
    v.DistinctKeys := by
  obtain ⟨_, _, _, -, -, hderives, -⟩ := decodeUtf8_eq_ok_iff.1 h
  exact hderives.distinctKeys

theorem shared_of_all {t : Text} (h : t.all fun u => Shared u) : ∀ u ∈ t, Shared u := by
  simpa using h

/-- A writer of which every separator and every string is in ASCII, without the separators
`1C`..`1F`. -/
structure Options.Ascii (o : Options) : Prop where
  strings : o.asciiOnly = true
  item : ∀ u ∈ o.itemSeparator, Shared u
  key : ∀ u ∈ o.keySeparator, Shared u

theorem Options.Ascii.within {o : Options} (ho : o.Ascii) : o.Within Shared where
  printable u hu := by
    have hrange : 0x20 ≤ u.val ∧ u.val ≤ 0x7E := hu
    exact ⟨by omega, by omega⟩
  strings := ho.strings
  item := ho.item
  key := ho.key
  lines _ := by decide

theorem sharedEscapes_of_shared {t : Text} (ht : ∀ u ∈ t, Shared u) (inside : Bool) :
    sharedEscapes inside t := by
  fun_induction sharedEscapes inside t <;> simp_all

/-- What is read from a text of shared characters is read from its bytes. -/
theorem decodeUtf8_of_shared {t : Text} (ht : ∀ u ∈ t, Shared u) {v : Value} (h : decode t = .ok v) :
    ∃ bytes, Codec.encodeUtf8? t = some bytes ∧ decodeUtf8 bytes = .ok v := by
  have hcharacters : t.Characters := by
    intro p hp
    have hp : p.val < 0x80 := (ht p hp).1
    rw [CodePoint.isSurrogate_eq_false_iff]
    omega
  exact ⟨_, Text.encodeUtf8?_eq hcharacters,
    decodeUtf8_of_decode hcharacters (sharedEscapes_of_shared ht false) h⟩

/-- **A value that was read is written and read again**, as bytes with a line feed after them. -/
theorem decode_encode_line {o : Options} (ho : o.Standard) (hascii : o.Ascii) {v : Value}
    (hkeys : v.DistinctKeys) (htexts : v.Writable o.asciiOnly) :
    ∃ t bytes v', v.encode o = .ok t ∧ Codec.encodeUtf8? (t ++ [0x0A]) = some bytes ∧
      decodeUtf8 bytes = .ok v' ∧ v'.Same v := by
  obtain ⟨v', hderives, hsame⟩ := v.chunks_readsAs ho hkeys htexts 0
  have hshared := v.within_chunks hascii.within ho.constants 0
  obtain ⟨bytes, hbytes, hread⟩ := decodeUtf8_of_shared (t := _ ++ [0x0A]) (v := v')
    (forall_mem_append.2 ⟨hshared, forall_mem_singleton.2 (by decide)⟩)
    (decode_eq_ok_iff.2 ⟨[], _, [0x0A], rfl, forall_mem_nil _, hderives,
      forall_mem_singleton.2 (by decide)⟩)
  exact ⟨_, bytes, v', Value.encode_eq ho.constants v, hbytes, hread, hsame⟩

end AddonBuilder.Json
