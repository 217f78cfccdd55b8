import AddonBuilder.Proofs.Json.Acceptance
import AddonBuilder.Proofs.Json.NumberText
import AddonBuilder.Proofs.Json.StringText
import AddonBuilder.Proofs.Json.ValueTree

/-!
# Written values are read back

Whatever the options put between the tokens of a value is white space around a comma or a colon, so
the text of a value is derived by the grammar, part by part (`chunks_derive`).
-/

namespace AddonBuilder.Json

open List Assoc Text Options

def Separates (u : CodePoint) (t : Text) : Prop :=
  ∃ w w', t = w ++ u :: w' ∧ Blanks w ∧ Blanks w'

/-- Options under which a value is written in the format: numbers without a JSON form are constants,
and the separators are a comma and a colon between white space. -/
structure Options.Standard (o : Options) : Prop where
  constants : o.allowConstants = true
  item : Separates 0x2C o.itemSeparator
  key : Separates 0x3A o.keySeparator

theorem Blanks.append {a b : Text} (ha : Blanks a) (hb : Blanks b) : Blanks (a ++ b) := by
  intro u hu
  rcases mem_append.1 hu with hu | hu
  · exact ha u hu
  · exact hb u hu

theorem blanks_newline (indent : Int) (level : Nat) : Blanks (newline indent level) := by
  intro u hu
  rcases mem_cons.1 hu with rfl | hu
  · decide
  · rw [eq_of_mem_replicate hu]
    decide

theorem blanks_opening (o : Options) (level : Nat) : Blanks (o.opening level).flatten := by
  unfold opening
  split
  · nofun
  · simpa using blanks_newline _ _

theorem blanks_closing (o : Options) (level : Nat) : Blanks (o.closing level).flatten := by
  unfold closing
  split
  · nofun
  · simpa using blanks_newline _ _

theorem separates_between {o : Options} (ho : o.Standard) (level : Nat) :
    Separates 0x2C (o.between level) := by
  obtain ⟨w, w', hsep, hw, hw'⟩ := ho.item
  unfold between
  split
  · exact ⟨w, w', hsep, hw, hw'⟩
  · rename_i indent _
    rw [hsep]
    exact ⟨w, w' ++ newline indent (level + 1), by simp, hw, hw'.append (blanks_newline _ _)⟩

section Parts

variable {β : Type} {separator w : Text} {f : β → List Text} {g : β → Value}

theorem derives_items (hseparator : Separates 0x2C separator) (hw : Blanks w) {l : List β}
    (hl : l ≠ []) (h : ∀ b ∈ l, Derives {} Value.reading (f b).flatten (.document (g b))) :
    Derives {} Value.reading ((join separator (l.map f)).flatten ++ (w ++ [0x5D]))
      (.items (l.map g)) := by
  obtain ⟨before, after, rfl, hbefore, hafter⟩ := hseparator
  induction l with
  | nil => exact absurd rfl hl
  | cons b l ih =>
    have hb := h b (by simp)
    cases l with
    | nil => simpa [join] using Derives.lastItem hb hw
    | cons b' l =>
      have hrest := ih (by simp) fun c hc => h c (mem_cons_of_mem _ hc)
      have := Derives.item hb hbefore hafter hrest
      simpa [join] using this

theorem derives_members {o : Options} (ho : o.Standard) (hseparator : Separates 0x2C separator)
    (hw : Blanks w) {l : List (Text × β)} (hl : l ≠ [])
    (hkeys : o.asciiOnly → ∀ m ∈ l, ∀ p ∈ m.1, p.isHighSurrogate = false)
    (h : ∀ m ∈ l, Derives {} Value.reading (f m.2).flatten (.document (g m.2))) :
    Derives {} Value.reading
      ((join separator (l.map fun m =>
        stringText o.asciiOnly m.1 :: o.keySeparator :: f m.2)).flatten ++ (w ++ [0x7D]))
      (.members (l.map fun m => (m.1, g m.2))) := by
  obtain ⟨before, after, rfl, hbefore, hafter⟩ := hseparator
  obtain ⟨w₁, w₂, hcolon, hw₁, hw₂⟩ := ho.key
  induction l with
  | nil => exact absurd rfl hl
  | cons m l ih =>
    have hm := h m (by simp)
    obtain ⟨body, hbody, hkey⟩ := stringText_token o.asciiOnly fun hascii => hkeys hascii m (by simp)
    cases l with
    | nil =>
      have := Derives.lastMember hkey hw₁ hw₂ hm hw
      simpa [join, hbody, hcolon] using this
    | cons m' l =>
      have hrest := ih (by simp) (fun hascii c hc => hkeys hascii c (mem_cons_of_mem _ hc))
        fun c hc => h c (mem_cons_of_mem _ hc)
      have := Derives.member hkey hw₁ hw₂ hm hbefore hafter hrest
      simpa [join, hbody, hcolon] using this

end Parts

theorem flatten_bracketed (o : Options) (level : Nat) (left right : CodePoint)
    (parts : List (List Text)) :
    (bracketed o level left right parts).flatten =
      left :: ((o.opening level).flatten ++ ((join (o.between level) parts).flatten ++
        ((o.closing level).flatten ++ [right]))) := by
  simp [bracketed]

def ReadsAs (t : Text) (v : Value) : Prop :=
  ∃ v', Derives {} Value.reading t (.document v') ∧ v'.Same v

theorem numberText_readsAs (x : Binary64) :
    ∃ t, numberText true x = .ok t ∧ ReadsAs t (.float x) := by
  cases hx : x.view with
  | nan =>
    refine ⟨_, by rw [numberText, hx]; rfl, _, .constant .notANumber, ?_⟩
    exact .nan (by decide) (by simp [Binary64.isNaN, hx])
  | infinite negative =>
    have hbits := Binary64.infinity_of_view hx
    refine ⟨_, by rw [numberText, hx]; rfl, ?_⟩
    cases negative with
    | false => exact ⟨_, .constant .infinity, hbits ▸ .float _⟩
    | true => exact ⟨_, .constant .minusInfinity, hbits ▸ .float _⟩
  | finite negative m e =>
    obtain ⟨i, f, p, htext, hi, hf, hp, hne, hread⟩ := toBinary64_toString hx
    refine ⟨i ++ (f ++ p), by rw [numberText, hx, ← htext],
      .float (Lexeme.toBinary64 (i ++ (f ++ p))), .real hi hf hp hne, ?_⟩
    rw [hread]
    exact .float x

theorem ordered_map {α β : Type} (o : Options) (members : List (Text × α)) (f : Text × α → β) :
    ordered o (members.map fun m => (m.1, f m)) = (ordered o members).map fun m => (m.1, f m) := by
  unfold ordered
  split
  · rw [map_mergeSort]
    exact fun _ _ _ _ => rfl
  · rfl

theorem ordered_perm {α : Type} (o : Options) (members : List (Text × α)) :
    (ordered o members).Perm members := by
  unfold ordered
  split
  · exact mergeSort_perm _ _
  · exact .refl _

namespace Value

variable {level : Nat} {items : List Value} {f : Value → List Text} {members : List (Text × Value)}

/-- No text in a value holds a unit that an ASCII writer cannot write: the first of a surrogate pair
would be joined with a following escape. -/
def Writable (asciiOnly : Bool) (v : Value) : Prop :=
  asciiOnly = true → ∀ t, v.Occurs t → ∀ p ∈ t, p.isHighSurrogate = false

variable {o : Options}

theorem itemChunks_eq (h : ∀ v ∈ items, chunks o level v = .ok (f v)) :
    itemChunks o level items = .ok (items.map f) := by
  induction items with
  | nil => rfl
  | cons v items ih =>
    rw [itemChunks, h v (by simp), ih fun w hw => h w (mem_cons_of_mem _ hw)]
    rfl

theorem memberChunks_eq (h : ∀ m ∈ members, chunks o level m.2 = .ok (f m.2)) :
    memberChunks o level members = members.map fun m =>
      (m.1, .ok (stringText o.asciiOnly m.1 :: o.keySeparator :: f m.2)) := by
  induction members with
  | nil => rfl
  | cons m members ih =>
    obtain ⟨k, v⟩ := m
    rw [memberChunks, h (k, v) (by simp), ih fun w hw => h w (mem_cons_of_mem _ hw)]
    rfl

theorem chunks_array (hempty : items ≠ []) (h : ∀ v ∈ items, chunks o (level + 1) v = .ok (f v)) :
    chunks o level (array items) = .ok (bracketed o level 0x5B 0x5D (items.map f)) := by
  rw [chunks, if_neg (by simpa using hempty), itemChunks_eq h]
  rfl

theorem chunks_object (hempty : members ≠ [])
    (h : ∀ m ∈ members, chunks o (level + 1) m.2 = .ok (f m.2)) :
    chunks o level (object members) =
      .ok (bracketed o level 0x7B 0x7D ((ordered o members).map fun m =>
        stringText o.asciiOnly m.1 :: o.keySeparator :: f m.2)) := by
  have hparts : ((ordered o members).map fun m => (m.1,
      (.ok (stringText o.asciiOnly m.1 :: o.keySeparator :: f m.2) :
        Except EncodeError (List Text)))).mapM Prod.snd =
      .ok ((ordered o members).map fun m =>
        stringText o.asciiOnly m.1 :: o.keySeparator :: f m.2) := by
    rw [mapM_map]
    exact mapM_eq_ok fun _ _ => rfl
  rw [chunks, if_neg (by simpa using hempty), memberChunks_eq h, ordered_map, hparts]
  rfl

/-- The chunks of a value, for a writer that can write every value. -/
def chunksOf (o : Options) (level : Nat) (v : Value) : List Text := (v.chunks o level).toOption.getD []

/-- **Every value can be written** by a writer that writes the constants. -/
theorem chunks_eq (ho : o.allowConstants) (level : Nat) (v : Value) :
    v.chunks o level = .ok (v.chunksOf o level) := by
  have hok : ∀ {level : Nat} {v : Value} {cs : List Text}, v.chunks o level = .ok cs →
      v.chunks o level = .ok (v.chunksOf o level) := by
    intro level v cs h
    rw [chunksOf, h]
    rfl
  induction v using Value.treeInduction generalizing level with
  | null | bool _ | int _ | text _ => rfl
  | float x =>
    obtain ⟨t, ht, -⟩ := numberText_readsAs x
    have hchunks : (float x).chunks o level = .ok [t] := by
      rw [chunks, ho, ht]
      rfl
    exact hok hchunks
  | array items ih =>
    by_cases hempty : items = []
    · subst hempty
      rfl
    · exact hok (chunks_array hempty fun v hv => ih v hv (level + 1))
  | object members ih =>
    by_cases hempty : members = []
    · subst hempty
      rfl
    · exact hok (chunks_object hempty fun m hm => ih m hm (level + 1))

theorem chunksOf_array (ho : o.allowConstants) (hempty : items ≠ []) :
    (array items).chunksOf o level =
      bracketed o level 0x5B 0x5D (items.map (chunksOf o (level + 1))) := by
  rw [chunksOf, chunks_array hempty fun v _ => chunks_eq ho (level + 1) v]
  rfl

theorem chunksOf_object (ho : o.allowConstants) (hempty : members ≠ []) :
    (object members).chunksOf o level =
      bracketed o level 0x7B 0x7D ((ordered o members).map fun m =>
        stringText o.asciiOnly m.1 :: o.keySeparator :: m.2.chunksOf o (level + 1)) := by
  rw [chunksOf, chunks_object hempty fun m _ => chunks_eq ho (level + 1) m.2]
  rfl

theorem encode_eq (ho : o.allowConstants) (v : Value) :
    v.encode o = .ok (v.chunksOf o 0).flatten := by
  rw [encode, chunks_eq ho]
  rfl

end Value

/-- The items of an array may have been read in place of the items. -/
theorem Value.Same.map {g : Value → Value} {items : List Value} (h : ∀ v ∈ items, (g v).Same v) :
    (Value.array (items.map g)).Same (.array items) := by
  refine .array (by simp) ?_
  intro i ha hb
  rw [getElem_map]
  exact h _ (getElem_mem hb)

/-- The members of an object may have been read in another order. -/
theorem Value.Same.mapMembers {g : Value → Value} {members l : List (Text × Value)}
    (hperm : l.Perm members) (hkeys : (keys members).Nodup) (h : ∀ m ∈ members, (g m.2).Same m.2) :
    (Value.object (l.map fun m => (m.1, g m.2))).Same (.object members) := by
  have hget : ∀ k, Assoc.get? (l.map fun m => (m.1, g m.2)) k = (Assoc.get? members k).map g := by
    intro k
    rw [get?_map, get?_perm hperm hkeys]
  refine .object (fun k => by simp [Assoc.contains, hget]) ?_
  intro k v w hv hw
  rw [hget, hw] at hv
  cases hv
  exact h (k, w) ((get?_eq_some_iff hkeys k w).1 hw)

/-- **The text of a value is derived by the grammar**, and read to the same value. -/
theorem Value.chunks_readsAs {o : Options} (ho : o.Standard) (v : Value) (hkeys : v.DistinctKeys)
    (htexts : v.Writable o.asciiOnly) (level : Nat) : ReadsAs (v.chunksOf o level).flatten v := by
  induction v using Value.treeInduction generalizing level with
  | null => exact ⟨_, .constant .null, .null⟩
  | bool b =>
    cases b with
    | false => exact ⟨_, .constant .false, .bool false⟩
    | true => exact ⟨_, .constant .true, .bool true⟩
  | int n =>
    have htext : ((Value.int n).chunksOf o level).flatten = ofInt n := flatten_singleton
    rw [htext]
    refine ⟨.int (Lexeme.toInt (ofInt n)), .integer (Lexeme.integer_ofInt n), ?_⟩
    rw [Lexeme.toInt_ofInt]
    exact .int n
  | float x =>
    obtain ⟨t, ht, hreads⟩ := numberText_readsAs x
    have htext : ((Value.float x).chunksOf o level).flatten = t := by
      rw [chunksOf, chunks, ho.constants, ht]
      exact flatten_singleton
    rwa [htext]
  | text t =>
    obtain ⟨body, hbody, htoken⟩ := stringText_token o.asciiOnly fun hascii =>
      htexts hascii t .text
    have htext : ((Value.text t).chunksOf o level).flatten = stringText o.asciiOnly t :=
      flatten_singleton
    rw [htext, hbody]
    exact ⟨.text t, .string htoken, .text t⟩
  | array items ih =>
    have hitems : ∀ v ∈ items, v.DistinctKeys := by
      cases hkeys
      assumption
    by_cases hempty : items = []
    · subst hempty
      exact ⟨_, .emptyArray (w := []) nofun, .array rfl nofun⟩
    have hread : ∀ v ∈ items, ReadsAs (v.chunksOf o (level + 1)).flatten v := fun v hv =>
      ih v hv (hitems v hv) (fun hascii t ht => htexts hascii t (.item hv ht)) (level + 1)
    choose! g hderives hsame using hread
    rw [chunksOf_array ho.constants hempty, flatten_bracketed]
    exact ⟨.array (items.map g), .array (blanks_opening o level) (derives_items
      (separates_between ho level) (blanks_closing o level) hempty hderives), .map hsame⟩
  | object members ih =>
    obtain ⟨hnodup, hmembers⟩ : (keys members).Nodup ∧ ∀ m ∈ members, m.2.DistinctKeys := by
      cases hkeys
      exact ⟨by assumption, by assumption⟩
    by_cases hempty : members = []
    · subst hempty
      exact ⟨_, .emptyObject (w := []) nofun, .object (fun _ => rfl) nofun⟩
    have hread : ∀ v ∈ members.map Prod.snd, ReadsAs (v.chunksOf o (level + 1)).flatten v := by
      intro v hv
      obtain ⟨m, hm, rfl⟩ := mem_map.1 hv
      exact ih m hm (hmembers m hm) (fun hascii t ht => htexts hascii t (.member hm ht)) _
    choose! g hderives hsame using hread
    have hperm := ordered_perm o members
    have hnodup' : (keys ((ordered o members).map fun m => (m.1, g m.2))).Nodup := by
      have := (hperm.map Prod.fst).nodup_iff.2 hnodup
      simpa [Assoc.keys, Function.comp_def] using this
    rw [chunksOf_object ho.constants hempty, flatten_bracketed]
    refine ⟨.object ((ordered o members).map fun m => (m.1, g m.2)), ?_,
      .mapMembers hperm hnodup fun m hm => hsame m.2 (mem_map_of_mem hm)⟩
    rw [← ofList_of_nodup hnodup']
    exact .object (blanks_opening o level) (derives_members ho (separates_between ho level)
      (blanks_closing o level) (fun h => hempty (h ▸ hperm).nil_eq.symm)
      (fun hascii m hm => htexts hascii m.1 (.key (hperm.mem_iff.1 hm)))
      fun m hm => hderives m.2 (mem_map_of_mem (hperm.mem_iff.1 hm)))

/-- What is written of a value is read back as the same value. -/
theorem Value.decode_chunks {o : Options} (ho : o.Standard) {v : Value} (hkeys : v.DistinctKeys)
    (htexts : v.Writable o.asciiOnly) (level : Nat) :
    ∃ v', decode (v.chunksOf o level).flatten = .ok v' ∧ v'.Same v := by
  obtain ⟨v', hderives, hsame⟩ := v.chunks_readsAs ho hkeys htexts level
  exact ⟨v', decode_eq_ok_iff.2 ⟨[], _, [], by simp, nofun, hderives, nofun⟩, hsame⟩

end AddonBuilder.Json
