import AddonBuilder.Json.Parser
import AddonBuilder.Proofs.Outcome

/-!
# Texts as units of UTF-8

The bytes of a text, seen as code points below 256, are its **units**.
-/

namespace AddonBuilder

open List

/-- The code is one of ASCII. -/
def CodePoint.IsAscii (p : CodePoint) : Prop := p.val < 0x80

instance (p : CodePoint) : Decidable p.IsAscii := inferInstanceAs (Decidable (_ < _))

theorem CodePoint.isSurrogate_eq_false_iff {p : CodePoint} :
    p.isSurrogate = false ↔ p.val < 0xD800 ∨ 0xDFFF < p.val := by
  rw [isSurrogate, Bool.and_eq_false_iff, decide_eq_false_iff_not, decide_eq_false_iff_not]
  omega

namespace Codec

variable {bytes : Bytes} {s : String}

/-- **Bytes are read as a string exactly if they are its UTF-8 form.** -/
theorem stringOfUtf8?_eq_some_iff : stringOfUtf8? bytes = some s ↔ bytes = utf8OfString s := by
  have hbytes : bytes = utf8OfString s ↔ bytes.toByteArray = s.toByteArray := by
    rw [utf8OfString, ← toByteArray_inj, String.toUTF8, ByteArray.ext_iff (y := s.toByteArray),
      ByteArray.ext_iff, data_toByteArray, data_toByteArray, Array.toArray_toList]
  rw [hbytes, stringOfUtf8?, String.fromUTF8?]
  constructor
  · intro h
    split at h
    · rw [← Option.some.inj h]
      rfl
    · cases h
  · intro h
    have hvalid : bytes.toByteArray.IsValidUTF8 := h ▸ s.isValidUTF8
    rw [dif_pos hvalid]
    exact congrArg some (String.toByteArray_inj.1 h)

theorem stringOfUtf8?_utf8OfString (s : String) : stringOfUtf8? (utf8OfString s) = some s :=
  stringOfUtf8?_eq_some_iff.2 rfl

theorem stringOfUtf8?_append {more : Bytes} {t : String} (hbytes : stringOfUtf8? bytes = some s)
    (hmore : stringOfUtf8? more = some t) : stringOfUtf8? (bytes ++ more) = some (s ++ t) := by
  rw [stringOfUtf8?_eq_some_iff] at *
  simp [hbytes, hmore, utf8OfString]

theorem utf8OfString_eq_nil_iff : utf8OfString s = [] ↔ s = "" := by
  have hempty : utf8OfString "" = [] := by simp [utf8OfString]
  rw [← hempty, eq_comm, ← stringOfUtf8?_eq_some_iff, stringOfUtf8?_utf8OfString, Option.some.injEq,
    eq_comm]

theorem utf8OfString_eq (s : String) : utf8OfString s = s.toList.flatMap String.utf8EncodeChar := by
  rw [utf8OfString, String.toUTF8, ← String.utf8Encode_toList, List.utf8Encode, data_toByteArray]

end Codec

/-- No code point is a surrogate. -/
def Text.Characters (t : Text) : Prop := ∀ p ∈ t, p.isSurrogate = false

def CodePoint.units (p : CodePoint) : Text :=
  Json.bytesSource (String.utf8EncodeChar (Char.ofNat p.val))

def Text.units (t : Text) : Text := t.flatMap CodePoint.units

namespace CodePoint

variable {p : CodePoint}

theorem toNat_ofNat_val (hp : p.isSurrogate = false) : (Char.ofNat p.val).val.toNat = p.val := by
  have hsurrogate := isSurrogate_eq_false_iff.1 hp
  have hvalid : p.val.isValidChar := by
    unfold Nat.isValidChar
    omega
  rw [Char.ofNat, dif_pos hvalid]
  rfl

theorem units_ascii (hp : p.IsAscii) : p.units = [p] := by
  have hp' : p.val < 0x80 := hp
  have hval := toNat_ofNat_val (isSurrogate_eq_false_iff.2 (by omega : p.val < 0xD800 ∨ _))
  have hbyte : (UInt8.ofNat p.val).toNat = p.val := by
    simp
    omega
  have hsame : CodePoint.ofByte (UInt8.ofNat p.val) = p := Fin.ext hbyte
  rw [units, String.utf8EncodeChar, hval, if_pos (by omega)]
  simp [Json.bytesSource, hsame]

theorem units_wide (hp : ¬ p.IsAscii) (hcharacter : p.isSurrogate = false) :
    ∃ u rest, p.units = u :: rest ∧ ∀ v ∈ u :: rest, ¬ v.IsAscii := by
  have hp' : ¬ p.val < 0x80 := hp
  -- the bytes of the character are those of numbers from 128 to 255
  have hbytes : ∃ n l, p.units = (n :: l).map (fun m => CodePoint.ofByte (UInt8.ofNat m)) ∧
      ∀ m ∈ n :: l, 0x80 ≤ m ∧ m < 256 := by
    rw [units, String.utf8EncodeChar, toNat_ofNat_val hcharacter, if_neg (by omega)]
    split
    · exact ⟨_, [_], rfl, by simp; omega⟩
    split
    · exact ⟨_, [_, _], rfl, by simp; omega⟩
    · exact ⟨_, [_, _, _], rfl, by simp; omega⟩
  obtain ⟨n, l, hunits, hl⟩ := hbytes
  have hwide : ∀ m ∈ n :: l, ¬ (CodePoint.ofByte (UInt8.ofNat m)).IsAscii := by
    intro m hm
    have hm := hl m hm
    show ¬ (UInt8.ofNat m).toNat < 0x80
    simp
    omega
  exact ⟨_, _, hunits, by simpa using hwide⟩

end CodePoint

namespace Text

@[simp] theorem units_nil : units [] = [] := rfl

theorem units_append (s t : Text) : units (s ++ t) = units s ++ units t := flatMap_append

theorem units_cons (p : CodePoint) (t : Text) : units (p :: t) = p.units ++ units t :=
  flatMap_cons

variable {p : CodePoint}

theorem units_cons_ascii (hp : p.IsAscii) (t : Text) : units (p :: t) = p :: units t := by
  rw [units_cons, CodePoint.units_ascii hp, singleton_append]

variable {s : Text}

theorem units_ascii_append (hs : ∀ p ∈ s, p.IsAscii) (t : Text) :
    units (s ++ t) = s ++ units t := by
  induction s with
  | nil => rfl
  | cons p s ih =>
    rw [cons_append, units_cons_ascii (hs p (by simp)),
      ih fun q hq => hs q (mem_cons_of_mem _ hq), cons_append]

variable {t rest : Text}

theorem units_eq_cons_iff (ht : t.Characters) {u : CodePoint} (hu : u.IsAscii) :
    units t = u :: rest ↔ ∃ after, t = u :: after ∧ rest = units after := by
  constructor
  · intro h
    cases t with
    | nil => cases h
    | cons p after =>
      by_cases hp : p.IsAscii
      · rw [units_cons_ascii hp, cons.injEq] at h
        obtain ⟨rfl, rfl⟩ := h
        exact ⟨after, rfl, rfl⟩
      · obtain ⟨v, vs, hunits, hwide⟩ := CodePoint.units_wide hp (ht p (by simp))
        rw [units_cons, hunits, cons_append, cons.injEq] at h
        exact absurd (h.1 ▸ hu) (hwide v (by simp))
  · rintro ⟨after, rfl, rfl⟩
    exact units_cons_ascii hu after

theorem eq_append_of_units (ht : t.Characters) (hs : ∀ p ∈ s, p.IsAscii) (h : units t = s ++ rest) :
    ∃ after, t = s ++ after ∧ rest = units after := by
  induction s generalizing t with
  | nil => exact ⟨t, rfl, h.symm⟩
  | cons p s ih =>
    obtain ⟨after, rfl, hafter⟩ := (units_eq_cons_iff ht (hs p (by simp))).1 h
    obtain ⟨after, rfl, hrest⟩ := ih (fun q hq => ht q (mem_cons_of_mem _ hq))
      (fun q hq => hs q (mem_cons_of_mem _ hq)) hafter.symm
    exact ⟨after, rfl, hrest⟩

theorem units_eq_nil_iff (ht : t.Characters) : units t = [] ↔ t = [] := by
  cases t with
  | nil => simp
  | cons p after =>
    by_cases hp : p.IsAscii
    · simp [units_cons_ascii hp]
    · obtain ⟨v, vs, hunits, -⟩ := CodePoint.units_wide hp (ht p (by simp))
      simp [units_cons, hunits]

theorem isSurrogate_ofChar (c : Char) : (CodePoint.ofChar c).isSurrogate = false := by
  have hvalid : c.toNat < 0xD800 ∨ 0xDFFF < c.toNat ∧ c.toNat < 0x110000 := c.valid
  rw [CodePoint.isSurrogate_eq_false_iff]
  show c.toNat < 0xD800 ∨ 0xDFFF < c.toNat
  omega

theorem characters_ofString (s : String) : (ofString s).Characters := by
  intro p hp
  obtain ⟨c, -, rfl⟩ := mem_map.1 hp
  exact isSurrogate_ofChar c

theorem toChar?_eq (hp : p.isSurrogate = false) : p.toChar? = some (Char.ofNat p.val) := by
  simp [CodePoint.toChar?, hp]

theorem ofString_display (ht : t.Characters) : ofString t.display = t := by
  rw [ofString, display, String.toList_ofList, map_map]
  refine (map_congr_left fun p hp => ?_).trans (map_id t)
  rw [Function.comp_apply, toChar?_eq (ht p hp)]
  exact Fin.ext (CodePoint.toNat_ofNat_val (ht p hp))

/-- A string is shown as itself. -/
theorem display_ofString (s : String) : (ofString s).display = s := by
  rw [display, ofString, map_map, map_congr_left (g := id), map_id, String.ofList_toList]
  intro c _
  rw [Function.comp_apply, toChar?_eq (isSurrogate_ofChar c)]
  exact Char.ofNat_toNat c

theorem ofString_injective : Function.Injective ofString := by
  intro a b h
  rw [← display_ofString a, h, display_ofString]

theorem toString?_eq (ht : t.Characters) : toString? t = some t.display := by
  rw [toString?, mapM_eq_some (g := fun p => p.toChar?.getD (Char.ofNat 0xFFFD))]
  · rfl
  · intro p hp
    rw [toChar?_eq (ht p hp), Option.getD_some]

theorem encodeUtf8?_eq (ht : t.Characters) :
    Codec.encodeUtf8? t = some (Codec.utf8OfString t.display) := by
  rw [Codec.encodeUtf8?, toString?_eq ht, Option.map_some]

theorem encodeUtf8?_ofString (s : String) :
    Codec.encodeUtf8? (ofString s) = some (Codec.utf8OfString s) := by
  rw [encodeUtf8?_eq (characters_ofString s), display_ofString]

/-- The units of a text without surrogates are the bytes of its UTF-8 form. -/
theorem bytesSource_utf8OfString (ht : t.Characters) :
    Json.bytesSource (Codec.utf8OfString t.display) = t.units := by
  rw [Codec.utf8OfString_eq, display, String.toList_ofList, flatMap_map, Json.bytesSource,
    map_flatMap, units, flatMap_def, flatMap_def]
  refine congrArg flatten (map_congr_left fun p hp => ?_)
  rw [toChar?_eq (ht p hp)]
  rfl

/-- **A text is read back from its UTF-8 form.** -/
theorem decodeUtf8?_utf8OfString (ht : t.Characters) :
    Codec.decodeUtf8? (Codec.utf8OfString t.display) = some t := by
  rw [Codec.decodeUtf8?, Codec.stringOfUtf8?_utf8OfString, Option.map_some, ofString_display ht]

/-- The bytes of a text are decoded to it. -/
theorem chunk?_units (ht : t.Characters) : (Json.Alphabet.bytes .utf8).chunk? t.units = some t := by
  have hunits : t.units.map (fun u => u.val.toUInt8) = Codec.utf8OfString t.display := by
    rw [← bytesSource_utf8OfString ht]
    simp [Json.bytesSource, Function.comp_def, CodePoint.ofByte]
  rw [Json.Alphabet.chunk?, hunits]
  exact decodeUtf8?_utf8OfString ht

end Text

end AddonBuilder
