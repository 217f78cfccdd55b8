import AddonBuilder.Json.Layout
import AddonBuilder.Proofs.Json.GraphTree
import AddonBuilder.Proofs.Json.Rereading
import AddonBuilder.Proofs.Session.Outcome

/-!
# A canonical form of JSON texts

A writer that sorts keys writes the same text for all values that are the same (`Value.Same`), and a
text is read back to the value that was written.
-/

namespace AddonBuilder

open Assoc

theorem Text.le_iff (a b : Text) : le a b ↔ a ≤ b := by
  rw [← not_lt, ← List.lex_eq_true_iff_lt, Bool.not_eq_true, ← Bool.not_eq_true']
  rfl

namespace Json

theorem pairwise_keys_ordered {α : Type} {o : Options} (hsort : o.sortKeys)
    (members : List (Text × α)) : (keys (ordered o members)).Pairwise fun a b => Text.le a b := by
  rw [ordered, if_pos hsort, keys, List.pairwise_map]
  refine List.pairwise_mergeSort (fun a b c hab hbc => ?_) (fun a b => ?_) members
  · rw [Text.le_iff] at *
    exact le_trans hab hbc
  · rw [Bool.or_eq_true, Text.le_iff, Text.le_iff]
    exact le_total a.1 b.1

/-- **Distinct keys have one sorted sequence**, whatever their order was. -/
theorem keys_ordered_eq {α β : Type} {o : Options} (hsort : o.sortKeys)
    {a : List (Text × α)} {b : List (Text × β)} (ha : (keys a).Nodup)
    (hb : (keys b).Nodup) (h : ∀ k, contains a k = contains b k) :
    keys (ordered o a) = keys (ordered o b) := by
  have hkeys : (keys a).Perm (keys b) := by
    refine (List.perm_ext_iff_of_nodup ha hb).2 fun k => ?_
    rw [← contains_iff, ← contains_iff, h k]
  have hperm : (keys (ordered o a)).Perm (keys (ordered o b)) :=
    (((ordered_perm o a).map Prod.fst).trans hkeys).trans ((ordered_perm o b).map Prod.fst).symm
  refine hperm.eq_of_pairwise (fun k l _ _ hkl hlk => ?_) (pairwise_keys_ordered hsort a)
    (pairwise_keys_ordered hsort b)
  rw [Text.le_iff] at hkl hlk
  exact le_antisymm hkl hlk

namespace Value

/-! ## Values that are the same -/

namespace Same

theorem refl (v : Value) : v.Same v := by
  induction v using Value.treeInduction with
  | null => exact .null
  | bool b => exact .bool b
  | int n => exact .int n
  | float x => exact .float x
  | text t => exact .text t
  | array items ih => exact .array rfl fun i hi _ => ih _ (List.getElem_mem hi)
  | object members ih =>
    refine .object (fun _ => rfl) fun k v w hv hw => ?_
    obtain rfl : v = w := Option.some.inj (hv.symm.trans hw)
    exact ih (k, v) (mem_of_get? hv)

theorem symm {v w : Value} (h : v.Same w) : w.Same v := by
  induction h with
  | null => exact .null
  | bool b => exact .bool b
  | int n => exact .int n
  | float x => exact .float x
  | nan hx hy => exact .nan hy hx
  | text t => exact .text t
  | array hlen _ ih => exact .array hlen.symm fun i hb ha => ih i ha hb
  | object hkeys _ ih =>
    exact .object (fun k => (hkeys k).symm) fun k v w hv hw => ih k w v hw hv

theorem trans {u v w : Value} (h : u.Same v) (h' : v.Same w) : u.Same w := by
  induction h generalizing w with
  | null => exact h'
  | bool b => exact h'
  | int n => exact h'
  | float x => exact h'
  | text t => exact h'
  | nan hx hy =>
    cases h' with
    | float => exact .nan hx hy
    | nan _ hz => exact .nan hx hz
  | @array a b hlen _ ih =>
    cases h' with
    | array hlen' hitems =>
      exact .array (hlen.trans hlen') fun i ha hc =>
        ih i ha (hlen ▸ ha) (hitems i (hlen ▸ ha) hc)
  | @object a b hkeys _ ih =>
    cases h' with
    | object hkeys' hmembers =>
      refine .object (fun k => (hkeys k).trans (hkeys' k)) fun k v w hv hw => ?_
      -- the key is in the middle as well
      obtain ⟨x, hx⟩ : ∃ x, Assoc.get? b k = some x := by
        have hcontains := hkeys k
        rw [Assoc.contains_of_get? hv] at hcontains
        exact Option.isSome_iff_exists.1 hcontains.symm
      exact ih k v x hv hx (hmembers k x w hx hw)

end Same

theorem distinctKeys_of_mem {items : List Value} (h : (array items).DistinctKeys) {v : Value}
    (hv : v ∈ items) : v.DistinctKeys := by
  cases h with
  | array h => exact h v hv

theorem distinctKeys_object {members : List (Text × Value)} (h : (object members).DistinctKeys) :
    (keys members).Nodup ∧ ∀ m ∈ members, m.2.DistinctKeys := by
  cases h with
  | object hkeys h => exact ⟨hkeys, h⟩

/-- **A writer that sorts keys writes the same text for values that are the same.** -/
theorem Same.chunks_eq {o : Options} (hsort : o.sortKeys) (ho : o.allowConstants)
    {v w : Value} (h : v.Same w) (hv : v.DistinctKeys) (hw : w.DistinctKeys) (level : Nat) :
    v.chunksOf o level = w.chunksOf o level := by
  induction h generalizing level with
  | nan hx hy =>
    rename_i x y
    have hview : ∀ z : Binary64, z.isNaN → z.view = .nan := fun z hz => eq_of_beq hz
    rw [chunksOf, chunksOf, chunks, chunks, numberText, numberText, hview x hx, hview y hy]
    simp only [numberText.special, ho, if_true]
  | @array a b hlen _ ih =>
    by_cases hempty : a = []
    · subst hempty
      rw [List.length_eq_zero_iff.1 hlen.symm]
    have hempty' : b ≠ [] := by
      intro hb
      rw [hb] at hlen
      exact hempty (List.length_eq_zero_iff.1 hlen)
    have hmap : a.map (chunksOf o (level + 1)) = b.map (chunksOf o (level + 1)) := by
      refine List.ext_getElem (by simpa using hlen) fun i ha hb => ?_
      rw [List.length_map] at ha hb
      rw [List.getElem_map, List.getElem_map,
        ih i ha hb (distinctKeys_of_mem hv (List.getElem_mem ha))
          (distinctKeys_of_mem hw (List.getElem_mem hb))]
    rw [chunksOf_array ho hempty, chunksOf_array ho hempty', hmap]
  | @object a b hkeys _ ih =>
    obtain ⟨hnodup, hdistinct⟩ := distinctKeys_object hv
    obtain ⟨hnodup', hdistinct'⟩ := distinctKeys_object hw
    by_cases hempty : a = []
    · subst hempty
      have hb : b = [] := by
        refine List.eq_nil_iff_forall_not_mem.2 fun m hm => ?_
        have hcontains : contains b m.1 := contains_iff.2 (List.mem_map_of_mem hm)
        rw [← hkeys] at hcontains
        cases hcontains
      rw [hb]
    have hempty' : b ≠ [] := by
      rintro rfl
      obtain ⟨m, hm⟩ := List.exists_mem_of_ne_nil a hempty
      have hcontains : contains a m.1 := contains_iff.2 (List.mem_map_of_mem hm)
      rw [hkeys] at hcontains
      cases hcontains
    -- the sorted members have the same keys, and at each key the same text
    have hsorted := keys_ordered_eq hsort hnodup hnodup' hkeys
    have htexts : ((ordered o a).map fun m => (m.1, chunksOf o (level + 1) m.2)) =
        (ordered o b).map fun m => (m.1, chunksOf o (level + 1) m.2) := by
      refine eq_of_map_eq (f := Prod.fst) (by simpa [keys, Function.comp_def] using hsorted) ?_
      intro p hp q hq hpq
      obtain ⟨m, hm, rfl⟩ := List.mem_map.1 hp
      obtain ⟨n, hn, rfl⟩ := List.mem_map.1 hq
      have hm := (ordered_perm o a).mem_iff.1 hm
      have hn := (ordered_perm o b).mem_iff.1 hn
      obtain ⟨k, v⟩ := m
      obtain ⟨l, w⟩ := n
      obtain rfl : k = l := hpq
      have hsame := ih k v w ((get?_eq_some_iff hnodup k v).2 hm)
        ((get?_eq_some_iff hnodup' k w).2 hn) (hdistinct _ hm) (hdistinct' _ hn) (level + 1)
      exact congrArg (Prod.mk k) hsame
    have hparts := congrArg (List.map fun p : Text × List Text =>
      stringText o.asciiOnly p.1 :: o.keySeparator :: p.2) htexts
    rw [List.map_map, List.map_map] at hparts
    rw [chunksOf_object ho hempty, chunksOf_object ho hempty']
    exact congrArg (bracketed o level 0x7B 0x7D) hparts
  | _ => rfl

end Value

/-! ## Laying out -/

theorem standard_layout : Layout.options.Standard :=
  ⟨rfl, ⟨[], [0x20], rfl, List.forall_mem_nil _, List.forall_mem_singleton.2 (by decide)⟩,
    ⟨[], [0x20], rfl, List.forall_mem_nil _, List.forall_mem_singleton.2 (by decide)⟩⟩

theorem ascii_layout : Layout.options.Ascii :=
  ⟨rfl, shared_of_all (by decide), shared_of_all (by decide)⟩

theorem distinctKeys_of_parseSource {mode : Mode} {s : Text} {d : Document}
    (h : parseSource mode s = .ok d) : d.value.DistinctKeys := by
  obtain ⟨_, _, _, -, -, hderives, -⟩ := spells_of_parseSource Value.reading h
  exact hderives.distinctKeys

theorem outcome_layOut {bytes : Bytes} {v : Value} {t : Text} (h : decodeUtf8 bytes = .ok v)
    (ht : v.encode Layout.options = .ok t) (session : Session) :
    Session.outcome (Layout.layOut bytes) session = (.ok (t ++ Text.ofString "\n"), session) := by
  unfold Layout.layOut
  rw [h]
  dsimp only
  rw [ht]
  rfl

theorem Value.Same.layout_eq {v w : Value} (h : v.Same w) (hv : v.DistinctKeys)
    (hw : w.DistinctKeys) : v.encode Layout.options = w.encode Layout.options := by
  rw [encode_eq rfl, encode_eq rfl, h.chunks_eq rfl rfl hv hw]

/-- What is laid out is read to the value that was laid out, as a text and as bytes with a line feed
after them. -/
theorem Value.exists_layout {v : Value} (hkeys : v.DistinctKeys) (htexts : v.Writable true) :
    ∃ t bytes, v.encode Layout.options = .ok t ∧
      Codec.encodeUtf8? (t ++ Text.ofString "\n") = some bytes ∧
      (∃ w, decode t = .ok w ∧ w.Same v) ∧ ∃ w, decodeUtf8 bytes = .ok w ∧ w.Same v := by
  obtain ⟨t, bytes, w, ht, hbytes, hline⟩ :=
    decode_encode_line standard_layout ascii_layout hkeys htexts
  have hplain := v.decode_chunks standard_layout hkeys htexts 0
  rw [← Except.ok.inj (ht.symm.trans (encode_eq rfl v))] at hplain
  exact ⟨t, bytes, ht, hbytes, hplain, w, hline⟩

/-- **Laying out gives a canonical form.**  Two texts that are read to values without first halves of
surrogate pairs are both laid out, and to the same text exactly if their values are the same, whatever
the order and the repetitions of members, the white space and the escapes were.  What is laid out is
read again and laid out to itself; and the command, given the bytes of its own output, prints it
again. -/
theorem layOut_canonical {mode mode' : Mode} {s s' : Text} {d d' : Document}
    (h : parseSource mode s = .ok d) (h' : parseSource mode' s' = .ok d')
    (htexts : d.value.Writable true) (htexts' : d'.value.Writable true) :
    ∃ t t', d.value.encode Layout.options = .ok t ∧ d'.value.encode Layout.options = .ok t' ∧
      (t = t' ↔ d.value.Same d'.value) ∧
      (∃ v, decode t = .ok v ∧ v.Same d.value ∧ v.encode Layout.options = .ok t) ∧
      ∃ bytes, Codec.encodeUtf8? (t ++ Text.ofString "\n") = some bytes ∧ ∀ session,
        Session.outcome (Layout.layOut bytes) session =
          (.ok (t ++ Text.ofString "\n"), session) := by
  have hkeys := distinctKeys_of_parseSource h
  have hkeys' := distinctKeys_of_parseSource h'
  obtain ⟨t, bytes, ht, hbytes, ⟨v, hdecode, hsame⟩, w, hline, hsameLine⟩ :=
    d.value.exists_layout hkeys htexts
  obtain ⟨t', -, ht', -, ⟨v', hdecode', hsame'⟩, -⟩ := d'.value.exists_layout hkeys' htexts'
  refine ⟨t, t', ht, ht', ⟨?_, ?_⟩, ⟨v, hdecode, hsame, ?_⟩, bytes, hbytes, outcome_layOut hline ?_⟩
  · -- one text is read to one value, which is the same as both
    rintro rfl
    obtain rfl : v = v' := Except.ok.inj (hdecode.symm.trans hdecode')
    exact hsame.symm.trans hsame'
  · intro hvalues
    exact Except.ok.inj (ht.symm.trans ((hvalues.layout_eq hkeys hkeys').trans ht'))
  · rw [hsame.layout_eq (distinctKeys_of_decode hdecode) hkeys, ht]
  · rw [hsameLine.layout_eq (distinctKeys_of_decodeUtf8 hline) hkeys, ht]

/-- Members in another order, one of them repeated and one written as an escape, once as a text and
once as bytes. -/
theorem layOut_canonical_reordered :
    let s : Text := [0x7B, 0x22, 0x62, 0x22, 0x3A, 0x22, 0x78, 0x22, 0x2C, 0x22, 0x61, 0x22, 0x3A,
      0x5B, 0x22, 0x79, 0x22, 0x5D, 0x2C, 0x22, 0x62, 0x22, 0x3A, 0x22, 0x7A, 0x22, 0x7D]
    let s' : Text := [0x20, 0x7B, 0x22, 0x61, 0x22, 0x3A, 0x5B, 0x22, 0x79, 0x22, 0x5D, 0x20, 0x2C,
      0x22, 0x5C, 0x75, 0x30, 0x30, 0x36, 0x32, 0x22, 0x3A, 0x22, 0x7A, 0x22, 0x7D]
    let d : Document := .object [([0x62], .string [0x78]), ([0x61], .array [.string [0x79]]),
      ([0x62], .string [0x7A])]
    let d' : Document := .object [([0x61], .array [.string [0x79]]), ([0x62], .string [0x7A])]
    parseSource {} s = .ok d ∧ parseSource { alphabet := .bytes .utf8 } s' = .ok d' ∧
      d.value.Writable true ∧ d'.value.Writable true ∧ d.value.Same d'.value ∧
      ∃ t, d.value.encode Layout.options = .ok t ∧ d'.value.encode Layout.options = .ok t ∧
        ∃ v, decode t = .ok v ∧ v.encode Layout.options = .ok t := by
  intro s s' d d'
  have h : parseSource {} s = .ok d := by
    dsimp only [s, d]
    rfl
  have h' : parseSource { alphabet := .bytes .utf8 } s' = .ok d' := by
    dsimp only [s', d']
    rfl
  have hvalue : d.value = .object [([0x62], .text [0x7A]), ([0x61], .array [.text [0x79]])] := rfl
  have hvalue' : d'.value = .object [([0x61], .array [.text [0x79]]), ([0x62], .text [0x7A])] := rfl
  have hoccurs : ∀ t, d.value.Occurs t ∨ d'.value.Occurs t →
      t = [0x62] ∨ t = [0x7A] ∨ t = [0x61] ∨ t = [0x79] := by
    intro t ht
    simp only [hvalue, hvalue', Value.occurs_object_iff, Value.occurs_text_iff,
      Value.occurs_array_iff, List.mem_cons, List.not_mem_nil, or_false, exists_eq_or_imp,
      exists_eq_left] at ht
    grind
  have hletters : ∀ t, d.value.Occurs t ∨ d'.value.Occurs t →
      ∀ p ∈ t, p.isHighSurrogate = false := by
    intro t ht p hp
    rcases hoccurs t ht with rfl | rfl | rfl | rfl
    all_goals
      rw [List.mem_singleton.1 hp]
      rfl
  have htexts : d.value.Writable true := fun _ t ht => hletters t (.inl ht)
  have htexts' : d'.value.Writable true := fun _ t ht => hletters t (.inr ht)
  have hsame : d.value.Same d'.value := by
    rw [hvalue, hvalue']
    exact .mapMembers (g := id) (List.Perm.swap ([0x61], .array [.text [0x79]])
      ([0x62], .text [0x7A]) []) (by decide) fun m _ => .refl m.2
  obtain ⟨t, t', ht, ht', hiff, ⟨v, hv, -, hagain⟩, -⟩ := layOut_canonical h h' htexts htexts'
  grind

end Json

end AddonBuilder
