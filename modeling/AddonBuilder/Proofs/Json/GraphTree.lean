import AddonBuilder.Json.Graph
import AddonBuilder.Proofs.Json.WrittenText

/-!
# Graphs that are trees in disguise

`Unfolds` says which value a slot of a graph stands for: lists and tuples are arrays, and tables
with text keys are objects.
-/

namespace AddonBuilder.Json

open List

theorem eq_of_map_eq {α β : Type} {f : α → β} {l l' : List α} (hmap : l.map f = l'.map f)
    (h : ∀ a ∈ l, ∀ b ∈ l', f a = f b → a = b) : l = l' := by
  induction l generalizing l' with
  | nil => exact (map_eq_nil_iff.1 hmap.symm).symm
  | cons a l ih =>
    cases l' with
    | nil => cases hmap
    | cons b l' =>
      grind

/-- A container writes its parts one level deeper if there is an indent, and goes back to its level
after them. -/
theorem run_indented (o : Options) (left right : CodePoint) (body : Leveled (List (List Text)))
    (level : Nat) :
    (Graph.indented o left right body).run.run level =
      (body >>= fun parts => (if o.indent.isSome then modify (· - 1) else pure ()) >>= fun _ =>
        pure (bracketed o level left right parts) : Leveled (List Text)).run.run
        (if o.indent.isSome then level + 1 else level) := by
  unfold Graph.indented
  cases o.indent <;> rfl

def Yields {α : Type} (x : Leveled α) (level : Nat) (a : α) : Prop :=
  x.run.run level = (.ok a, level)

namespace Yields

variable {α β : Type} {level : Nat}

theorem pure (a : α) : Yields (Pure.pure a) level a := rfl

theorem bind {x : Leveled α} {f : α → Leveled β} {a : α} {b : β} (hx : Yields x level a)
    (hf : Yields (f a) level b) : Yields (x >>= f) level b := by
  unfold Yields at *
  simp only [ExceptT.run_bind, StateT.run_bind, hx]
  exact hf

theorem map {x : Leveled α} {a : α} (hx : Yields x level a) (f : α → β) :
    Yields (f <$> x) level (f a) := by
  rw [map_eq_pure_bind]
  exact hx.bind (pure _)

theorem mapM {f : α → Leveled β} {g : α → β} {l : List α}
    (h : ∀ a ∈ l, Yields (f a) level (g a)) : Yields (l.mapM f) level (l.map g) := by
  induction l with
  | nil => exact pure []
  | cons a l ih =>
    rw [mapM_cons]
    exact (h a (by simp)).bind ((ih fun b hb => h b (mem_cons_of_mem _ hb)).bind (pure _))

/-- The parts of a container are written one level deeper if there is an indent. -/
theorem indented {o : Options} {left right : CodePoint} {body : Leveled (List (List Text))}
    {parts : List (List Text)}
    (h : Yields body (if o.indent.isSome then level + 1 else level) parts) :
    Yields (Graph.indented o left right body) level (bracketed o level left right parts) := by
  unfold Yields at *
  rw [run_indented, ExceptT.run_bind, StateT.run_bind, h]
  cases o.indent <;> rfl

end Yields

namespace Graph

variable {slot : Slot} {v : Value} {level level' : Nat} {α : Type}

/-- A slot of a graph without cycles stands for a value. -/
inductive Unfolds (g : Graph) : Slot → Value → Prop
  | null : Unfolds g .null .null
  | bool (b : Bool) : Unfolds g (.bool b) (.bool b)
  | int (n : Int) : Unfolds g (.int n) (.int n)
  | float (x : Binary64) : Unfolds g (.float x) (.float x)
  | text (t : Text) : Unfolds g (.text t) (.text t)
  | sequence {address : Nat} {cell : Cell} (entries : List (Slot × Value))
      (hcell : g.cells[address]? = some cell)
      (hitems : cell = .list (entries.map Prod.fst) ∨ cell = .tuple (entries.map Prod.fst))
      (h : ∀ e ∈ entries, Unfolds g e.1 e.2) :
      Unfolds g (.ref address) (.array (entries.map Prod.snd))
  | table {address : Nat} (entries : List (Text × Slot × Value))
      (hcell : g.cells[address]? = some (.table (entries.map fun e => (.text e.1, e.2.1))))
      (hkeys : (entries.map Prod.fst).Nodup)
      (h : ∀ e ∈ entries, Unfolds g e.2.1 e.2.2) :
      Unfolds g (.ref address) (.object (entries.map fun e => (e.1, e.2.2)))

variable {g : Graph}

theorem Unfolds.distinctKeys (h : Unfolds g slot v) : v.DistinctKeys := by
  induction h with
  | null => exact .null
  | bool b => exact .bool b
  | int n => exact .int n
  | float x => exact .float x
  | text t => exact .text t
  | sequence entries _ _ _ ih =>
    refine .array fun v hv => ?_
    obtain ⟨e, he, rfl⟩ := mem_map.1 hv
    exact ih e he
  | table entries _ hkeys _ ih =>
    refine .object (by simpa [Assoc.keys, Function.comp_def] using hkeys) fun m hm => ?_
    obtain ⟨e, he, rfl⟩ := mem_map.1 hm
    exact ih e he

theorem Unfolds.unique {w : Value} (hv : Unfolds g slot v) (hw : Unfolds g slot w) : v = w := by
  induction hv generalizing w with
  | null | bool b | int n | float x | text t => cases hw; rfl
  | sequence entries hcell hitems _ ih =>
    cases hw with
    | sequence entries' hcell' hitems' h' =>
      rw [hcell, Option.some.injEq] at hcell'
      subst hcell'
      have hslots : entries.map Prod.fst = entries'.map Prod.fst := by
        rcases hitems with rfl | rfl <;> simpa using hitems'
      rw [eq_of_map_eq hslots]
      intro e he e' he' hslot
      have hvalue := ih e he (hslot ▸ h' e' he')
      exact Prod.ext hslot hvalue
    | table entries' hcell' =>
      rw [hcell, Option.some.injEq] at hcell'
      rcases hitems with rfl | rfl <;> cases hcell'
  | table entries hcell hkeys _ ih =>
    cases hw with
    | sequence entries' hcell' hitems' =>
      grind
    | table entries' hcell' _ h' =>
      rw [hcell, Option.some.injEq, Cell.table.injEq] at hcell'
      rw [eq_of_map_eq hcell']
      intro e he e' he' hslot
      grind

theorem bracketed_level {o : Options} (h : o.indent = none ∨ level' = level)
    (left right : CodePoint) (parts : List (List Text)) :
    bracketed o level' left right parts = bracketed o level left right parts := by
  rcases h with h | rfl
  · simp [bracketed, Options.opening, Options.between, Options.closing, h]
  · rfl

/-- The state in which a slot is written: the open containers are cells, each of them once, and the
fuel covers the containers that are not open. -/
structure Way (g : Graph) (fuel : Nat) (open_ : List Nat) : Prop where
  nodup : open_.Nodup
  bounded : ∀ address ∈ open_, address < g.cells.size
  covers : g.cells.size < fuel + open_.length

namespace Way

variable {fuel : Nat} {open_ : List Nat}

theorem start (h : g.cells.size < fuel) : Way g fuel [] :=
  ⟨.nil, forall_mem_nil _, h⟩

theorem exists_fuel (h : Way g fuel open_) : ∃ n, fuel = n + 1 := by
  have hsub : open_ ⊆ range g.cells.size := fun a ha => mem_range.2 (h.bounded a ha)
  have hlen : open_.length ≤ g.cells.size := by
    simpa using (subperm_of_subset h.nodup hsub).length_le
  have := h.covers
  exact ⟨fuel - 1, by omega⟩

theorem inside (h : Way g (fuel + 1) open_) {address : Nat} {cell : Cell}
    (hcell : g.cells[address]? = some cell) (hopen : address ∉ open_) :
    Way g fuel (address :: open_) where
  nodup := nodup_cons.2 ⟨hopen, h.nodup⟩
  bounded := by
    intro a ha
    rcases mem_cons.1 ha with rfl | ha
    · exact (Array.getElem?_eq_some_iff.1 hcell).1
    · exact h.bounded a ha
  covers := by
    have := h.covers
    rw [length_cons]
    omega

end Way

/-- The state in which a slot is written that unfolds to `v`: every open container unfolds to a
larger value. -/
structure Enters (g : Graph) (fuel : Nat) (open_ : List Nat) (v : Value) : Prop
    extends Way g fuel open_ where
  larger : ∀ address ∈ open_, ∃ w, Unfolds g (.ref address) w ∧ sizeOf v < sizeOf w

namespace Enters

variable {fuel : Nat} {open_ : List Nat} {v : Value}

theorem start (g : Graph) (v : Value) : Enters g (g.cells.size + 1) [] v :=
  ⟨Way.start (Nat.lt_succ_self _), forall_mem_nil _⟩

theorem not_mem (h : Enters g fuel open_ v) {address : Nat} (hv : Unfolds g (.ref address) v) :
    address ∉ open_ := by
  intro hmem
  obtain ⟨w, hw, hlt⟩ := h.larger address hmem
  rw [hv.unique hw] at hlt
  omega

theorem inside (h : Enters g (fuel + 1) open_ v) {address : Nat} {cell : Cell}
    (hcell : g.cells[address]? = some cell) (hv : Unfolds g (.ref address) v) {u : Value}
    (hu : sizeOf u < sizeOf v) : Enters g fuel (address :: open_) u where
  toWay := h.toWay.inside hcell (h.not_mem hv)
  larger := by
    intro a ha
    rcases mem_cons.1 ha with rfl | ha
    · exact ⟨v, hv, hu⟩
    · obtain ⟨w, hw, hlt⟩ := h.larger a ha
      exact ⟨w, hw, by omega⟩

end Enters

theorem sortMembers_text (entries : List (Text × Slot × α)) :
    sortMembers (entries.map fun e => (.text e.1, e.2.1)) =
      (entries.mergeSort fun a b => Text.le a.1 b.1).map fun e => (.text e.1, e.2.1) := by
  unfold sortMembers
  rw [map_mergeSort]
  exact fun _ _ _ _ => rfl

/-- Without an indent the level does not matter, also inside a container. -/
theorem inner_level {o : Options} (h : o.indent = none ∨ level' = level) :
    o.indent = none ∨ level' + 1 = if o.indent.isSome then level + 1 else level := by
  rcases h with h | rfl
  · exact .inl h
  · cases hindent : o.indent with
    | none => exact .inl rfl
    | some indent => exact .inr rfl

section Write

variable {o : Options} {codec : Option Codec} {fuel : Nat} {open_ : List Nat} {address : Nat}

theorem write_sequence {cell : Cell} {items : List Slot}
    (hcell : g.cells[address]? = some cell) (hitems : cell = .list items ∨ cell = .tuple items)
    (hempty : items ≠ []) (hopen : address ∉ open_) :
    g.write o codec (fuel + 1) open_ (.ref address) =
      indented o 0x5B 0x5D (items.mapM (g.write o codec fuel (address :: open_))) := by
  rcases hitems with rfl | rfl <;> simp [write, hcell, hempty, hopen]

/-- What is written of a member of a table; nothing is if its key has no text. -/
def memberPart (g : Graph) (o : Options) (codec : Option Codec) (fuel : Nat) (open_ : List Nat)
    (m : Key × Slot) : Leveled (Option (List Text)) := do
  match ← write.liftExcept (m.1.string o codec) with
  | none => return none
  | some k =>
    let chunks ← g.write o codec fuel open_ m.2
    return some (k :: o.keySeparator :: chunks)

theorem mapM_memberPart (entries : List (Text × Slot × α)) :
    ((entries.map fun e => (Key.text e.1, e.2.1)).mapM (memberPart g o codec fuel open_) >>=
      fun parts => pure (parts.filterMap id)) =
    entries.mapM fun e => (stringText o.asciiOnly e.1 :: o.keySeparator :: ·) <$>
      g.write o codec fuel open_ e.2.1 := by
  induction entries with
  | nil => rfl
  | cons e entries ih =>
    rw [map_cons, mapM_cons, mapM_cons, ← ih]
    have hpart : memberPart g o codec fuel open_ (Key.text e.1, e.2.1) =
        g.write o codec fuel open_ e.2.1 >>= fun chunks =>
          pure (some (stringText o.asciiOnly e.1 :: o.keySeparator :: chunks)) := rfl
    simp only [hpart, map_eq_pure_bind, bind_assoc, pure_bind]
    rfl

theorem write_table {entries : List (Text × Slot × α)}
    (hcell : g.cells[address]? = some (.table (entries.map fun e => (.text e.1, e.2.1))))
    (hempty : entries ≠ []) (hopen : address ∉ open_) :
    g.write o codec (fuel + 1) open_ (.ref address) =
      indented o 0x7B 0x7D ((ordered o entries).mapM fun e =>
        (stringText o.asciiOnly e.1 :: o.keySeparator :: ·) <$>
          g.write o codec fuel (address :: open_) e.2.1) := by
  rw [← mapM_memberPart, write]
  simp only [hcell]
  rw [if_neg (by simpa using hempty), if_neg (by simp [hopen]), ordered]
  split
  · rw [sortMembers_text]
    rfl
  · rfl

end Write

/-- **A slot that unfolds to a value is written as the value.** -/
theorem yields_write {o : Options} (ho : o.allowConstants) (codec : Option Codec)
    (h : Unfolds g slot v) {fuel : Nat} {open_ : List Nat} (henters : Enters g fuel open_ v)
    (hlevel : o.indent = none ∨ level' = level) :
    Yields (g.write o codec fuel open_ slot) level (v.chunksOf o level') := by
  induction h generalizing fuel open_ level level' with
  | null | bool _ | int _ | text _ =>
    obtain ⟨n, rfl⟩ := henters.exists_fuel
    exact .pure _
  | float x =>
    obtain ⟨n, rfl⟩ := henters.exists_fuel
    obtain ⟨t, ht, -⟩ := numberText_readsAs x
    rw [write, Value.chunksOf, Value.chunks, ho, ht]
    exact .pure _
  | @sequence address cell entries hcell hitems h ih =>
    have hv := Unfolds.sequence entries hcell hitems h
    obtain ⟨n, rfl⟩ := henters.exists_fuel
    by_cases hempty : entries = []
    · subst hempty
      have hwrite : g.write o codec (n + 1) open_ (.ref address) = Pure.pure [Text.ofString "[]"] := by
        rcases hitems with rfl | rfl <;> simp [write, hcell]
      rw [hwrite]
      exact .pure _
    rw [write_sequence hcell hitems (by simpa using hempty) (henters.not_mem hv),
      Value.chunksOf_array ho (by simpa using hempty), bracketed_level hlevel, map_map, mapM_map]
    refine .indented (.mapM fun e he => ih e he ?_ (inner_level hlevel))
    exact henters.inside hcell hv (Value.sizeOf_lt_array (mem_map_of_mem he))
  | @table address entries hcell hkeys h ih =>
    have hv := Unfolds.table entries hcell hkeys h
    obtain ⟨n, rfl⟩ := henters.exists_fuel
    by_cases hempty : entries = []
    · subst hempty
      have hwrite : g.write o codec (n + 1) open_ (.ref address) =
          Pure.pure [Text.ofString "\x7b\x7d"] := by
        simp [write, hcell]
      rw [hwrite]
      exact .pure _
    rw [write_table hcell (by simpa using hempty) (henters.not_mem hv),
      Value.chunksOf_object ho (by simpa using hempty), ordered_map, bracketed_level hlevel, map_map]
    refine .indented (.mapM fun e he => ?_)
    have he := (ordered_perm o entries).mem_iff.1 he
    exact (ih e he (henters.inside hcell hv (Value.sizeOf_lt_object
      (m := (e.1, e.2.2)) (mem_map.2 ⟨e, he, rfl⟩))) (inner_level hlevel)).map _

end Graph

/-- **What is written is read back.**  A graph that unfolds to a value is written, and its text is
read to the same value, whatever the options put around the tokens. -/
theorem decode_write (w : Writer) (g : Graph) (v : Value) (ho : w.options.Standard)
    (hv : g.Unfolds g.root v) (htexts : v.Writable w.options.asciiOnly) :
    ∃ chunks v', (w.write g).1 = .ok chunks ∧ decode chunks.flatten = .ok v' ∧ v'.Same v := by
  have hwrite := Graph.yields_write ho.constants w.codec hv (.start g v)
    (.inr rfl : w.options.indent = none ∨ w.level = w.level)
  obtain ⟨v', hdecode, hsame⟩ := Value.decode_chunks ho hv.distinctKeys htexts w.level
  refine ⟨_, v', ?_, hdecode, hsame⟩
  unfold Writer.write
  rw [hwrite]

/-- A tuple that is shared by two members of a table, with a text outside the range of two bytes,
written in ASCII with its keys sorted. -/
theorem decode_write_shared :
    let w : Writer := { options := { sortKeys := true, indent := some 2, keySeparator := [0x3A, 0x0B] } }
    let cells : Array Cell := #[.table [(.text [0x62], .ref 1), (.text [0x61], .ref 1)],
      .tuple [.text [0x1F600], .float ⟨0x3FB999999999999A⟩]]
    let pair : Value := .array [.text [0x1F600], .float ⟨0x3FB999999999999A⟩]
    let v : Value := .object [([0x62], pair), ([0x61], pair)]
    w.options.Standard ∧ (Graph.mk cells (.ref 0)).Unfolds (.ref 0) v ∧
      v.Writable w.options.asciiOnly ∧
      ∃ chunks v', (w.write ⟨cells, .ref 0⟩).1 = .ok chunks ∧ decode chunks.flatten = .ok v' ∧
        v'.Same v := by
  intro w cells pair v
  have ho : w.options.Standard :=
    ⟨rfl, ⟨[], [0x20], rfl, by simp [Blanks], by simp [Blanks, Text.isAsciiBlank]⟩,
      ⟨[], [0x0B], rfl, by simp [Blanks], by simp [Blanks, Text.isAsciiBlank]⟩⟩
  have hpair : (Graph.mk cells (.ref 0)).Unfolds (.ref 1) pair :=
    .sequence [(.text [0x1F600], .text [0x1F600]),
      (.float ⟨0x3FB999999999999A⟩, .float ⟨0x3FB999999999999A⟩)] rfl (.inr rfl) (by
        intro e he
        simp only [mem_cons, not_mem_nil, or_false] at he
        rcases he with rfl | rfl
        · exact .text _
        · exact .float _)
  have hv : (Graph.mk cells (.ref 0)).Unfolds (.ref 0) v :=
    .table [([0x62], .ref 1, pair), ([0x61], .ref 1, pair)] rfl (by decide) (by
      intro e he
      simp only [mem_cons, not_mem_nil, or_false] at he
      rcases he with rfl | rfl <;> exact hpair)
  have htexts : v.Writable w.options.asciiOnly := by
    intro _ t ht p hp
    simp only [v, pair, Value.occurs_object_iff, Value.occurs_array_iff, Value.occurs_text_iff,
      Value.not_occurs_float, mem_cons, not_mem_nil, or_false, exists_eq_or_imp,
      exists_eq_left] at ht
    rcases ht with (rfl | rfl) | (rfl | rfl)
    all_goals
      rw [mem_singleton.1 hp]
      rfl
  exact ⟨ho, hv, htexts, decode_write w ⟨cells, .ref 0⟩ v ho hv htexts⟩

end AddonBuilder.Json
