import AddonBuilder.Proofs.Json.GraphTree

/-!
# Cycles are found, and nothing else is

A heap holds lists, tuples and tables whose keys are texts; its containers may be shared, and they
may lead back to themselves.
-/

namespace AddonBuilder.Json

open Relation List

namespace Cell

def slots : Cell → List Slot
  | list items | tuple items => items
  | table members => members.map Prod.snd
  | other _ standIn => standIn.toList

/-- A list, a tuple, or a table with texts as its keys, each of them once. -/
def Textual : Cell → Prop
  | list _ | tuple _ => True
  | table members => ∃ entries : List (Text × Slot),
      members = entries.map (fun e => (.text e.1, e.2)) ∧ (entries.map Prod.fst).Nodup
  | other .. => False

def map (f : Slot → Slot) : Cell → Cell
  | list items => list (items.map f)
  | tuple items => tuple (items.map f)
  | table members => table (members.map fun m => (m.1, f m.2))
  | other shown standIn => other shown (standIn.map f)

@[simp]
theorem map_id (cell : Cell) : cell.map id = cell := by
  cases cell <;> simp [map]

@[simp]
theorem slots_map (f : Slot → Slot) (cell : Cell) : (cell.map f).slots = cell.slots.map f := by
  cases cell with
  | list items | tuple items => rfl
  | table members => simp [map, slots]
  | other shown standIn => cases standIn <;> rfl

theorem Textual.map {cell : Cell} (h : cell.Textual) (f : Slot → Slot) : (cell.map f).Textual := by
  cases cell with
  | list items | tuple items => trivial
  | table members =>
    obtain ⟨entries, rfl, hkeys⟩ := h
    exact ⟨entries.map fun e => (e.1, f e.2), by simp, by simpa [Function.comp_def] using hkeys⟩
  | other shown standIn => exact h

end Cell

/-- A byte string becomes a text. -/
def Slot.decoded (decode : Bytes → Text) : Slot → Slot
  | .bytes b => .text (decode b)
  | slot => slot

theorem Slot.decoded_eq_ref_iff {decode : Bytes → Text} {slot : Slot} {address : Nat} :
    slot.decoded decode = .ref address ↔ slot = .ref address := by
  cases slot <;> simp [decoded]

theorem Slot.decoded_ne_bytes (decode : Bytes → Text) (slot : Slot) (b : Bytes) :
    slot.decoded decode ≠ .bytes b := by
  cases slot <;> simp [decoded]

theorem mapM_congr {α β : Type} {l : List α} {f f' : α → Leveled β} (h : ∀ a ∈ l, f a = f' a) :
    l.mapM f = l.mapM f' := by
  induction l with
  | nil => rfl
  | cons a l ih =>
    rw [mapM_cons, mapM_cons, h a (by simp), ih fun b hb => h b (mem_cons_of_mem _ hb)]

namespace Graph

variable {address fuel a b : Nat} {o : Options} {cell : Cell} {open_ : List Nat} {v : Value}

/-- A slot of some cell, or the root. -/
def Holds (g : Graph) (slot : Slot) : Prop :=
  slot = g.root ∨ ∃ (a : Nat) (cell : Cell), g.cells[a]? = some cell ∧ slot ∈ cell.slots

/-- A heap of lists, tuples and tables with texts as keys, in which every address is that of a
cell. -/
structure IsHeap (g : Graph) : Prop where
  textual : ∀ (a : Nat) (cell : Cell), g.cells[a]? = some cell → cell.Textual
  closed : ∀ address, g.Holds (.ref address) → address < g.cells.size

/-- The container at `a` holds the one at `b`. -/
def Step (g : Graph) (a b : Nat) : Prop :=
  ∃ cell, g.cells[a]? = some cell ∧ .ref b ∈ cell.slots

/-- A cycle can be reached from the root. -/
def Cyclic (g : Graph) : Prop :=
  ∃ a b, g.root = .ref a ∧ ReflTransGen g.Step a b ∧ TransGen g.Step b b

variable {g : Graph}

theorem IsHeap.exists_cell (hg : g.IsHeap) (h : g.Holds (.ref address)) :
    ∃ cell, g.cells[address]? = some cell ∧ cell.Textual := by
  have hcell := Array.getElem?_eq_getElem (hg.closed address h)
  exact ⟨_, hcell, hg.textual _ _ hcell⟩

/-! ## How a container is written -/

/-- **Containers are written in one way.**  Each kind has its brackets, and writes its parts in some
order with something before each. -/
theorem exists_parts (hcheck : o.checkCircular) (h : cell.Textual) :
    ∃ (left right : CodePoint) (parts : List (List Text × Slot)),
      (parts.map Prod.snd).Perm cell.slots ∧
      ∀ (f : Slot → Slot) (g : Graph) (codec : Option Codec) (fuel : Nat) (open_ : List Nat)
        (address : Nat), g.cells[address]? = some (cell.map f) →
        g.write o codec (fuel + 1) open_ (.ref address) =
          if cell.slots = [] then pure [[left, right]]
          else if address ∈ open_ then throw .circular
          else indented o left right (parts.mapM fun e =>
            (e.1 ++ ·) <$> g.write o codec fuel (address :: open_) (f e.2)) := by
  cases cell with
  | list items | tuple items =>
    refine ⟨0x5B, 0x5D, items.map ([], ·), by simp [Cell.slots, Function.comp_def], ?_⟩
    intro f g codec fuel open_ address hcell
    by_cases hempty : items = []
    · subst hempty
      rw [write, hcell]
      rfl
    rw [if_neg (by simpa [Cell.slots] using hempty)]
    by_cases hopen : address ∈ open_
    · simp [write, hcell, Cell.map, hempty, hopen, hcheck]
    · have hwrite : g.write o codec (fuel + 1) open_ (.ref address) = indented o 0x5B 0x5D
          ((items.map f).mapM (g.write o codec fuel (address :: open_))) :=
        write_sequence hcell (by simp [Cell.map]) (by simpa using hempty) hopen
      rw [if_neg hopen, hwrite, mapM_map, mapM_map]
      simp [Function.comp_def]
  | table members =>
    obtain ⟨entries, rfl, -⟩ := h
    refine ⟨0x7B, 0x7D, (ordered o entries).map fun e =>
      ([stringText o.asciiOnly e.1, o.keySeparator], e.2), ?_, ?_⟩
    · simpa [Cell.slots, Function.comp_def] using (ordered_perm o entries).map Prod.snd
    intro f g codec fuel open_ address hcell
    have hcell' : g.cells[address]? = some (.table
        ((entries.map fun e => (e.1, f e.2, ())).map fun e => (.text e.1, e.2.1))) := by
      simpa [Cell.map, Function.comp_def] using hcell
    by_cases hempty : entries = []
    · subst hempty
      rw [write, hcell]
      rfl
    rw [if_neg (by simpa [Cell.slots] using hempty)]
    by_cases hopen : address ∈ open_
    · simp [write, hcell', hempty, hopen, hcheck]
    · rw [if_neg hopen, write_table hcell' (by simpa using hempty) hopen,
        ordered_map o entries fun e => (f e.2, ()), mapM_map, mapM_map]
      rfl
  | other shown standIn => cases h

theorem holds_part (hcell : g.cells[address]? = some cell)
    {parts : List (List Text × Slot)} (hparts : (parts.map Prod.snd).Perm cell.slots)
    {e : List Text × Slot} (he : e ∈ parts) : e.2 ∈ cell.slots ∧ g.Holds e.2 := by
  have hslot : e.2 ∈ cell.slots := hparts.mem_iff.1 (mem_map_of_mem he)
  exact ⟨hslot, .inr ⟨address, cell, hcell, hslot⟩⟩

variable {slot : Slot}

/-- **The number of cells bounds the nesting.**  Fuel for the containers that are not open is
enough, and more changes nothing. -/
theorem write_fuel (hcheck : o.checkCircular) (codec : Option Codec)
    (hg : g.IsHeap) (hway : Way g fuel open_) (hslot : g.Holds slot) :
    g.write o codec (fuel + 1) open_ slot = g.write o codec fuel open_ slot := by
  induction fuel generalizing open_ slot with
  | zero =>
    obtain ⟨n, hn⟩ := hway.exists_fuel
    cases hn
  | succ fuel ih =>
    cases slot with
    | null | bool _ | int _ | float _ | text _ | bytes _ => rw [write, write]
    | ref address =>
      obtain ⟨cell, hcell, htextual⟩ := hg.exists_cell hslot
      obtain ⟨left, right, parts, hparts, hwrite⟩ := exists_parts hcheck htextual
      rw [hwrite id g codec _ _ _ (by simpa using hcell),
        hwrite id g codec _ _ _ (by simpa using hcell)]
      split
      · rfl
      split
      · rfl
      · rename_i hopen
        congr 1
        apply mapM_congr
        intro e he
        exact congrArg _ (ih (hway.inside hcell hopen) (holds_part hcell hparts he).2)

/-! ## What unfolds leads to no cycle -/

theorem Unfolds.step (hv : Unfolds g (.ref a) v) (h : g.Step a b) :
    ∃ w, Unfolds g (.ref b) w ∧ sizeOf w < sizeOf v := by
  obtain ⟨cell, hcell, hslot⟩ := h
  cases hv with
  | sequence entries hcell' hitems hentries =>
    obtain rfl : cell = _ := Option.some.inj (hcell.symm.trans hcell')
    have hslot : Slot.ref b ∈ entries.map Prod.fst := by
      rcases hitems with rfl | rfl <;> exact hslot
    obtain ⟨e, he, hb⟩ := List.mem_map.1 hslot
    exact ⟨e.2, hb ▸ hentries e he, Value.sizeOf_lt_array (List.mem_map_of_mem he)⟩
  | table entries hcell' hkeys hentries =>
    obtain rfl : cell = _ := Option.some.inj (hcell.symm.trans hcell')
    rw [Cell.slots, List.map_map] at hslot
    obtain ⟨e, he, hb⟩ := List.mem_map.1 hslot
    exact ⟨e.2.2, hb ▸ hentries e he,
      Value.sizeOf_lt_object (m := (e.1, e.2.2)) (List.mem_map.2 ⟨e, he, rfl⟩)⟩

theorem Unfolds.transGen (hv : Unfolds g (.ref a) v)
    (h : TransGen g.Step a b) : ∃ w, Unfolds g (.ref b) w ∧ sizeOf w < sizeOf v := by
  induction h with
  | single h => exact hv.step h
  | tail _ h ih =>
    obtain ⟨w, hw, hlt⟩ := ih
    obtain ⟨w', hw', hlt'⟩ := hw.step h
    exact ⟨w', hw', hlt'.trans hlt⟩

/-- A container that leads to itself would unfold to a value smaller than itself. -/
theorem Unfolds.not_cyclic (hv : Unfolds g g.root v) : ¬ g.Cyclic := by
  rintro ⟨a, b, hroot, hreach, hcycle⟩
  rw [hroot] at hv
  obtain ⟨w, hw⟩ : ∃ w, Unfolds g (.ref b) w := by
    rcases reflTransGen_iff_eq_or_transGen.1 hreach with rfl | hreach
    · exact ⟨v, hv⟩
    · exact (hv.transGen hreach).imp fun _ h => h.1
  obtain ⟨w', hw', hlt⟩ := hw.transGen hcycle
  rw [hw.unique hw'] at hlt
  exact lt_irrefl _ hlt

theorem exists_unfolds (hcell : g.cells[address]? = some cell)
    (htextual : cell.Textual) (h : ∀ slot ∈ cell.slots, ∃ v, Unfolds g slot v) :
    ∃ v, Unfolds g (.ref address) v := by
  choose! value hvalue using h
  cases cell with
  | list items | tuple items =>
    refine ⟨_, .sequence (items.map fun slot => (slot, value slot)) hcell ?_ ?_⟩
    · simp [Function.comp_def]
    · intro e he
      obtain ⟨slot, hslot, rfl⟩ := mem_map.1 he
      exact hvalue slot hslot
  | table members =>
    obtain ⟨entries, rfl, hkeys⟩ := htextual
    refine ⟨_, .table (entries.map fun e => (e.1, e.2, value e.2)) ?_ ?_ ?_⟩
    · simpa [Function.comp_def] using hcell
    · simpa [Function.comp_def] using hkeys
    · intro e he
      obtain ⟨m, hm, rfl⟩ := mem_map.1 he
      exact hvalue m.2 (mem_map.2 ⟨_, mem_map_of_mem hm, rfl⟩)
  | other shown standIn => cases htextual

/-! ## The two ways to settle a slot -/

/-- Following addresses, a slot leads to an open container or to one that leads to itself. -/
def Leads (g : Graph) (open_ : List Nat) (slot : Slot) : Prop :=
  ∃ a b, slot = .ref a ∧ ReflTransGen g.Step a b ∧ (b ∈ open_ ∨ TransGen g.Step b b)

/-- Inside a container its address is open too, and a way back to it is a cycle. -/
theorem Leads.of_part (hcell : g.cells[address]? = some cell) (hslot : slot ∈ cell.slots)
    (h : g.Leads (address :: open_) slot) : g.Leads open_ (.ref address) := by
  obtain ⟨a, b, rfl, hreach, hend⟩ := h
  have hstep : g.Step address a := ⟨cell, hcell, hslot⟩
  rw [mem_cons, or_assoc] at hend
  rcases hend with rfl | hend
  · exact ⟨b, b, rfl, .refl, .inr (.head' hstep hreach)⟩
  · exact ⟨address, b, rfl, .head hstep hreach, hend⟩

/-- A computation that succeeds, and then `P` holds, or that fails at a cycle, and then `Q` holds. -/
def Settles {α : Type} (P Q : Prop) (x : Leveled α) : Prop :=
  ∀ level, (P ∧ ∃ a, Yields x level a) ∨ (Q ∧ ∃ n, x.run.run level = (.error .circular, n))

namespace Settles

variable {α β : Type} {P Q P' Q' : Prop}

theorem pure (hP : P) (a : α) : Settles P Q (Pure.pure a : Leveled α) :=
  fun _ => .inl ⟨hP, a, .pure a⟩

theorem throw (hQ : Q) : Settles P Q (MonadExcept.throw .circular : Leveled α) :=
  fun level => .inr ⟨hQ, level, rfl⟩

theorem imp {x : Leveled α} (h : Settles P Q x) (hP : P → P') (hQ : Q → Q') : Settles P' Q' x :=
  fun level => (h level).imp (And.imp_left hP) (And.imp_left hQ)

theorem bind {x : Leveled α} {f : α → Leveled β} (hx : Settles P Q x)
    (hf : P → ∀ a, Settles P' Q (f a)) : Settles P' Q (x >>= f) := by
  intro level
  rcases hx level with ⟨hP, a, ha⟩ | ⟨hQ, n, hn⟩
  · have hrun : (x >>= f).run.run level = (f a).run.run level := by
      rw [ExceptT.run_bind, StateT.run_bind, show x.run.run level = (.ok a, level) from ha]
      rfl
    unfold Yields
    rw [hrun]
    exact hf hP a level
  · refine .inr ⟨hQ, n, ?_⟩
    rw [ExceptT.run_bind, StateT.run_bind, hn]
    rfl

theorem map {x : Leveled α} (h : Settles P Q x) (f : α → β) : Settles P Q (f <$> x) := by
  rw [map_eq_pure_bind]
  exact h.bind fun hP a => pure hP _

theorem mapM {P Q : α → Prop} {f : α → Leveled β} {l : List α}
    (h : ∀ a ∈ l, Settles (P a) (Q a) (f a)) :
    Settles (∀ a ∈ l, P a) (∃ a ∈ l, Q a) (l.mapM f) := by
  induction l with
  | nil => exact pure (forall_mem_nil _) []
  | cons a l ih =>
    have hfirst : Settles (P a) (∃ b ∈ a :: l, Q b) (f a) :=
      (h a (by simp)).imp id fun hQ => ⟨a, by simp, hQ⟩
    have hrest : Settles (∀ b ∈ l, P b) (∃ b ∈ a :: l, Q b) (l.mapM f) :=
      (ih fun b hb => h b (mem_cons_of_mem _ hb)).imp id
        fun ⟨b, hb, hQ⟩ => ⟨b, mem_cons_of_mem _ hb, hQ⟩
    rw [mapM_cons]
    exact hfirst.bind fun hP _ => hrest.bind fun hPs _ =>
      pure (forall_mem_cons.2 ⟨hP, hPs⟩) _

theorem indented {o : Options} {left right : CodePoint} {body : Leveled (List (List Text))}
    (h : Settles P Q body) : Settles P Q (Graph.indented o left right body) := by
  intro level
  rcases h (if o.indent.isSome then level + 1 else level) with ⟨hP, a, ha⟩ | ⟨hQ, n, hn⟩
  · exact .inl ⟨hP, _, ha.indented⟩
  · refine .inr ⟨hQ, n, ?_⟩
    rw [run_indented, ExceptT.run_bind, StateT.run_bind, hn]
    rfl

end Settles

/-- **A slot unfolds and is written, or it leads to a cycle and the writer fails.** -/
theorem settles_write (hcheck : o.checkCircular)
    (ho : o.allowConstants) (codec : Option Codec) (hg : g.IsHeap)
    (hbytes : ∀ b, ¬ g.Holds (.bytes b)) (hway : Way g fuel open_) (hslot : g.Holds slot) :
    Settles (∃ v, Unfolds g slot v) (g.Leads open_ slot) (g.write o codec fuel open_ slot) := by
  induction fuel generalizing open_ slot with
  | zero =>
    obtain ⟨n, hn⟩ := hway.exists_fuel
    cases hn
  | succ fuel ih =>
    cases slot with
    | null => exact .pure ⟨_, .null⟩ _
    | bool b => exact .pure ⟨_, .bool b⟩ _
    | int n => exact .pure ⟨_, .int n⟩ _
    | text t => exact .pure ⟨_, .text t⟩ _
    | bytes b => exact absurd hslot (hbytes b)
    | float x =>
      obtain ⟨t, ht, -⟩ := numberText_readsAs x
      rw [write, ho, ht]
      exact .pure ⟨_, .float x⟩ _
    | ref address =>
      obtain ⟨cell, hcell, htextual⟩ := hg.exists_cell hslot
      obtain ⟨left, right, parts, hparts, hwrite⟩ := exists_parts hcheck htextual
      rw [hwrite id g codec _ _ _ (by simpa using hcell)]
      have hunfolds := exists_unfolds hcell htextual
      split
      · rename_i hempty
        refine .pure (hunfolds fun slot hs => ?_) _
        rw [hempty] at hs
        cases hs
      split
      · rename_i hopen
        exact .throw ⟨address, address, rfl, .refl, .inl hopen⟩
      · rename_i hopen
        have hpart : ∀ e ∈ parts, Settles (∃ v, Unfolds g e.2 v) (g.Leads (address :: open_) e.2)
            ((e.1 ++ ·) <$> g.write o codec fuel (address :: open_) (id e.2)) := fun e he =>
          (ih (hway.inside hcell hopen) (holds_part hcell hparts he).2).map _
        refine (Settles.mapM hpart).indented.imp (fun hall => hunfolds fun slot hs => ?_) ?_
        · obtain ⟨e, he, rfl⟩ := mem_map.1 (hparts.mem_iff.2 hs)
          exact hall e he
        · rintro ⟨e, he, hleads⟩
          exact hleads.of_part hcell (holds_part hcell hparts he).1

/-! ## Byte strings -/

/-- The graph with its byte strings replaced by their texts. -/
def decoded (decode : Bytes → Text) (g : Graph) : Graph where
  cells := g.cells.map (Cell.map (Slot.decoded decode))
  root := g.root.decoded decode

section Decoded

variable {decode : Bytes → Text}

theorem getElem?_decoded (address : Nat) :
    (g.decoded decode).cells[address]? =
      (g.cells[address]?).map (Cell.map (Slot.decoded decode)) := by
  simp [decoded]

theorem exists_of_holds_decoded (h : (g.decoded decode).Holds slot) :
    ∃ s, g.Holds s ∧ s.decoded decode = slot := by
  rcases h with rfl | ⟨address, cell, hcell, hslot⟩
  · exact ⟨g.root, .inl rfl, rfl⟩
  · rw [getElem?_decoded, Option.map_eq_some_iff] at hcell
    obtain ⟨cell, hcell, rfl⟩ := hcell
    rw [Cell.slots_map] at hslot
    obtain ⟨s, hs, rfl⟩ := mem_map.1 hslot
    exact ⟨s, .inr ⟨address, cell, hcell, hs⟩, rfl⟩

theorem IsHeap.decoded (hg : g.IsHeap) (decode : Bytes → Text) : (g.decoded decode).IsHeap where
  textual := by
    intro address cell hcell
    rw [getElem?_decoded, Option.map_eq_some_iff] at hcell
    obtain ⟨cell, hcell, rfl⟩ := hcell
    exact (hg.textual address cell hcell).map _
  closed := by
    intro address h
    obtain ⟨s, hs, hslot⟩ := exists_of_holds_decoded h
    rw [Slot.decoded_eq_ref_iff.1 hslot] at hs
    simpa [Graph.decoded] using hg.closed address hs

theorem step_decoded : (g.decoded decode).Step = g.Step := by
  funext a b
  simp [Step, getElem?_decoded, Slot.decoded_eq_ref_iff]

theorem cyclic_decoded_iff : (g.decoded decode).Cyclic ↔ g.Cyclic := by
  unfold Cyclic
  rw [step_decoded]
  simp [decoded, Slot.decoded_eq_ref_iff]

/-- **A graph is written as its decoded form.** -/
theorem write_decoded (hcheck : o.checkCircular) {codec : Option Codec}
    (hg : g.IsHeap) (hbytes : ∀ b, g.Holds (.bytes b) →
      bytesText o codec b = .ok (stringText o.asciiOnly (decode b)))
    (fuel : Nat) (open_ : List Nat) (hslot : g.Holds slot) :
    (g.decoded decode).write o codec fuel open_ (slot.decoded decode) =
      g.write o codec fuel open_ slot := by
  induction fuel generalizing open_ slot with
  | zero => rfl
  | succ fuel ih =>
    cases slot with
    | null | bool _ | int _ | float _ | text _ => rfl
    | bytes b =>
      rw [Slot.decoded, write, write, hbytes b hslot]
      rfl
    | ref address =>
      obtain ⟨cell, hcell, htextual⟩ := hg.exists_cell hslot
      obtain ⟨left, right, parts, hparts, hwrite⟩ := exists_parts hcheck htextual
      have href : (Slot.ref address).decoded decode = .ref address := rfl
      have hcell' : (g.decoded decode).cells[address]? =
          some (cell.map (Slot.decoded decode)) := by rw [getElem?_decoded, hcell]; rfl
      rw [href, hwrite _ _ codec _ _ _ hcell', hwrite id g codec _ _ _ (by simpa using hcell)]
      have hmap := mapM_congr (fun e he => congrArg ((e.1 ++ ·) <$> ·)
        (ih (address :: open_) (holds_part hcell hparts he).2) : ∀ e ∈ parts, _ = _)
      rw [hmap]
      rfl

end Decoded

end Graph

namespace Writer

theorem write_decoded (w : Writer) {g : Graph} {decode : Bytes → Text}
    (hcheck : w.options.checkCircular) (hg : g.IsHeap) (hbytes : ∀ b, g.Holds (.bytes b) →
      bytesText w.options w.codec b = .ok (stringText w.options.asciiOnly (decode b))) :
    w.write (g.decoded decode) = w.write g := by
  have hsize : (g.decoded decode).cells.size = g.cells.size := by simp [Graph.decoded]
  have hroot : (g.decoded decode).root = g.root.decoded decode := rfl
  unfold write
  rw [hsize, hroot, Graph.write_decoded hcheck hg hbytes _ _ (.inl rfl)]

/-- A heap of texts unfolds and is written, or it has a cycle and the writer fails. -/
theorem write_cases (w : Writer) {g : Graph} (hcheck : w.options.checkCircular)
    (hconstants : w.options.allowConstants) (hg : g.IsHeap) (hbytes : ∀ b, ¬ g.Holds (.bytes b)) :
    (∃ v chunks, g.Unfolds g.root v ∧ v.chunks w.options w.level = .ok chunks ∧
      (w.write g).1 = .ok chunks) ∨ (g.Cyclic ∧ (w.write g).1 = .error .circular) := by
  unfold write
  rcases Graph.settles_write hcheck hconstants w.codec hg hbytes
    (.start (Nat.lt_succ_self _)) (.inl rfl) w.level with ⟨⟨v, hv⟩, -⟩ | ⟨hleads, n, hn⟩
  · have hyields := Graph.yields_write hconstants w.codec hv (.start g v)
      (.inr rfl : w.options.indent = none ∨ w.level = w.level)
    exact .inl ⟨v, _, hv, Value.chunks_eq hconstants _ v, congrArg Prod.fst hyields⟩
  · obtain ⟨a, b, hroot, hreach, hend⟩ := hleads
    exact .inr ⟨⟨a, b, hroot, hreach, hend.resolve_left not_mem_nil⟩, congrArg Prod.fst hn⟩

end Writer

/-- **Cycles are found exactly.**  A heap of lists, tuples and tables with texts as keys is written
with one outcome, whatever fuel is given beyond the number of cells.  It is the error of a circular
reference if and only if a cycle can be reached from the root.  Without a cycle the root unfolds to
a value, and the heap is written as this value, however often its containers are shared. -/
theorem write_eq_circular_iff (w : Writer) (g : Graph) (decode : Bytes → Text)
    (hcheck : w.options.checkCircular = true) (hconstants : w.options.allowConstants = true)
    (hg : g.IsHeap) (hbytes : ∀ b, g.Holds (.bytes b) →
      bytesText w.options w.codec b = .ok (stringText w.options.asciiOnly (decode b))) :
    (∀ fuel, g.cells.size < fuel → g.write w.options w.codec fuel [] g.root =
      g.write w.options w.codec (g.cells.size + 1) [] g.root) ∧
    ((w.write g).1 = .error .circular ↔ g.Cyclic) ∧
    (¬ g.Cyclic → ∃ v chunks, (g.decoded decode).Unfolds (g.decoded decode).root v ∧
      v.chunks w.options w.level = .ok chunks ∧ (w.write g).1 = .ok chunks) ∧
    EncodeError.circular.message? = some "Circular reference detected" := by
  have hnone : ∀ b, ¬ (g.decoded decode).Holds (.bytes b) := by
    intro b hb
    obtain ⟨s, -, hs⟩ := Graph.exists_of_holds_decoded hb
    exact Slot.decoded_ne_bytes decode s b hs
  have hcyclic : (g.decoded decode).Cyclic ↔ g.Cyclic := Graph.cyclic_decoded_iff
  have hcases := w.write_cases hcheck hconstants (hg.decoded decode) hnone
  rw [w.write_decoded hcheck hg hbytes, hcyclic] at hcases
  refine ⟨?_, ?_, ?_, rfl⟩
  · intro fuel hfuel
    induction fuel, hfuel using Nat.le_induction with
    | base => rfl
    | succ fuel hfuel ih => rw [Graph.write_fuel hcheck w.codec hg (.start hfuel) (.inl rfl), ih]
  · rcases hcases with ⟨v, chunks, hv, -, hwrite⟩ | ⟨hcycle, hwrite⟩
    · rw [hwrite, ← hcyclic]
      exact iff_of_false (fun h => by cases h) hv.not_cyclic
    · exact iff_of_true hwrite hcycle
  · intro hacyclic
    exact hcases.resolve_right fun h => hacyclic h.1

/-- A list that two members of a table share, with a byte string.  If it holds the table too there is
a cycle, and else there is none. -/
theorem write_eq_circular_iff_shared :
    let w : Writer := { options := { indent := some 2 } }
    let decode : Bytes → Text := List.map CodePoint.ofByte
    let g (last : List Slot) : Graph := ⟨#[.table [(.text [0x61], .ref 1), (.text [0x62], .ref 1)],
      .list (.bytes [0x78] :: last)], .ref 0⟩
    (∀ last ∈ [[.ref 0], []], (g last).IsHeap ∧ ∀ b, (g last).Holds (.bytes b) →
      bytesText w.options w.codec b = .ok (stringText w.options.asciiOnly (decode b))) ∧
    (w.write (g [.ref 0])).1 = .error .circular ∧ ¬ (g []).Cyclic ∧
    ∃ v chunks, ((g []).decoded decode).Unfolds (.ref 0) v ∧ v.chunks w.options 0 = .ok chunks ∧
      (w.write (g [])).1 = .ok chunks := by
  intro w decode g
  have hcells : ∀ last (a : Nat) (cell : Cell), (g last).cells[a]? = some cell →
      a = 0 ∧ cell = .table [(.text [0x61], .ref 1), (.text [0x62], .ref 1)] ∨
        a = 1 ∧ cell = .list (.bytes [0x78] :: last) := by
    rintro last (_ | _ | a) cell h <;> simp_all [g]
  have hslots : ∀ last ∈ [[.ref 0], []], ∀ slot, (g last).Holds slot →
      slot = .ref 0 ∨ slot = .ref 1 ∨ slot = .bytes [0x78] := by
    rintro last hlast slot (rfl | ⟨a, cell, hcell, hslot⟩)
    · exact .inl rfl
    · rcases hcells last a cell hcell with ⟨-, rfl⟩ | ⟨-, rfl⟩ <;>
        simp [Cell.slots] at hslot hlast <;> grind
  have hheap : ∀ last ∈ [[.ref 0], []], (g last).IsHeap ∧ ∀ b, (g last).Holds (.bytes b) →
      bytesText w.options w.codec b = .ok (stringText w.options.asciiOnly (decode b)) := by
    intro last hlast
    have hsize : (g last).cells.size = 2 := rfl
    refine ⟨⟨fun a cell hcell => ?_, fun a ha => ?_⟩, fun b hb => ?_⟩
    · rcases hcells last a cell hcell with ⟨-, rfl⟩ | ⟨-, rfl⟩
      · exact ⟨[([0x61], .ref 1), ([0x62], .ref 1)], rfl, by decide⟩
      · trivial
    · rcases hslots last hlast _ ha with h | h | h <;> cases h <;> omega
    · rcases hslots last hlast _ hb with h | h | h <;> cases h
      rfl
  have hlooped : (g [.ref 0]).Cyclic := by
    have h01 : (g [.ref 0]).Step 0 1 := ⟨.table _, rfl, by simp [Cell.slots]⟩
    have h10 : (g [.ref 0]).Step 1 0 := ⟨.list _, rfl, by simp [Cell.slots]⟩
    exact ⟨0, 0, rfl, .refl, .tail (.single h01) h10⟩
  have hstep : ∀ a b, (g []).Step a b → a < b := by
    rintro a b ⟨cell, hcell, hslot⟩
    rcases hcells [] a cell hcell with ⟨rfl, rfl⟩ | ⟨rfl, rfl⟩ <;> simp [Cell.slots] at hslot
    omega
  have hacyclic : ¬ (g []).Cyclic := by
    rintro ⟨a, b, -, -, hcycle⟩
    exact lt_irrefl b (transGen_minimal hstep _ _ hcycle)
  obtain ⟨hg, hbytes⟩ := hheap [.ref 0] (by simp)
  obtain ⟨hg', hbytes'⟩ := hheap [] (by simp)
  exact ⟨hheap, (write_eq_circular_iff w _ decode rfl rfl hg hbytes).2.1.2 hlooped, hacyclic,
    (write_eq_circular_iff w _ decode rfl rfl hg' hbytes').2.2.1 hacyclic⟩

end AddonBuilder.Json
