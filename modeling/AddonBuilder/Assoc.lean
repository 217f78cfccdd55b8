/-!
# Association lists in insertion order

A key keeps the place of its first insertion when its value is replaced, and a new key goes to the
end.
-/

namespace AddonBuilder

open List

/-- Pairs of a key and a value; operations keep the keys distinct. -/
abbrev Assoc (κ α : Type) := List (κ × α)

namespace Assoc

variable {κ α β : Type} [DecidableEq κ]

/-- The first value of a key. -/
def get? : Assoc κ α → κ → Option α
  | [], _ => none
  | (k, v) :: rest, key => if k = key then some v else get? rest key

/-- Whether a key has a value. -/
def contains (m : Assoc κ α) (key : κ) : Bool := (get? m key).isSome

def insert : Assoc κ α → κ → α → Assoc κ α
  | [], key, value => [(key, value)]
  | (k, v) :: rest, key, value =>
    if k = key then (k, value) :: rest else (k, v) :: insert rest key value

/-- Removes the first pair of a key. -/
def erase : Assoc κ α → κ → Assoc κ α
  | [], _ => []
  | (k, v) :: rest, key => if k = key then rest else (k, v) :: erase rest key

/-- The keys, in order. -/
def keys (m : Assoc κ α) : List κ := m.map Prod.fst

/-- The values, in order. -/
def values (m : Assoc κ α) : List α := m.map Prod.snd

/-- The pairs of a list inserted one after another into a map. -/
def merge (m : Assoc κ α) (pairs : List (κ × α)) : Assoc κ α :=
  pairs.foldl (fun m (k, v) => insert m k v) m

/-- Of several pairs with one key the last counts, in the place of the first. -/
def ofList (pairs : List (κ × α)) : Assoc κ α := merge [] pairs

@[simp] theorem get?_nil (key : κ) : get? ([] : Assoc κ α) key = none := rfl

/-- Inserting changes one key. -/
theorem get?_insert (m : Assoc κ α) (key : κ) (value : α) (k : κ) :
    get? (insert m key value) k = if key = k then some value else get? m k := by
  induction m with
  | nil => simp [insert, get?]
  | cons p rest ih =>
    obtain ⟨k', v'⟩ := p
    by_cases h : k' = key
    · subst h
      by_cases hk : k' = k <;> simp [insert, get?, hk]
    · by_cases hk : k' = k
      · subst hk
        have : key ≠ k' := fun e => h e.symm
        simp [insert, get?, h, this]
      · simp [insert, get?, h, hk, ih]

theorem get?_append (m n : Assoc κ α) (k : κ) : get? (m ++ n) k = (get? m k).or (get? n k) := by
  induction m with
  | nil => simp
  | cons p rest ih =>
    by_cases h : p.1 = k
    · simp [get?, h]
    · simp [get?, h, ih]

/-- Of several pairs with one key the last is kept. -/
theorem get?_merge (m : Assoc κ α) (pairs : List (κ × α)) (k : κ) :
    get? (merge m pairs) k = (get? pairs.reverse k).or (get? m k) := by
  induction pairs generalizing m with
  | nil => simp [merge]
  | cons p rest ih =>
    have hstep : merge m (p :: rest) = merge (insert m p.1 p.2) rest := rfl
    rw [hstep, ih, get?_insert, reverse_cons, get?_append]
    by_cases h : p.1 = k <;> simp [get?, h]

theorem merge_append (m : Assoc κ α) (pairs more : List (κ × α)) :
    merge m (pairs ++ more) = merge (merge m pairs) more := foldl_append

theorem get?_ofList (pairs : List (κ × α)) (k : κ) :
    get? (ofList pairs) k = get? pairs.reverse k := by
  rw [ofList, get?_merge]
  simp

theorem get?_eq_none_iff (m : Assoc κ α) (k : κ) : get? m k = none ↔ k ∉ keys m := by
  induction m with
  | nil => simp [keys]
  | cons p rest ih =>
    by_cases h : p.1 = k
    · simp [get?, keys, h]
    · have hne : k ≠ p.1 := fun e => h e.symm
      simpa [get?, keys, h, hne] using ih

/-- A value that is found is there. -/
theorem mem_of_get? {m : Assoc κ α} {k : κ} {v : α} (h : get? m k = some v) : (k, v) ∈ m := by
  induction m with
  | nil => cases h
  | cons p rest ih =>
    by_cases hp : p.1 = k
    · obtain ⟨k', v'⟩ := p
      obtain rfl : k' = k := hp
      obtain rfl : v' = v := by simpa [get?] using h
      simp
    · exact mem_cons_of_mem _ (ih (by simpa [get?, hp] using h))

/-- A key has a value exactly if it is among the keys. -/
theorem contains_iff {m : Assoc κ α} {k : κ} : contains m k ↔ k ∈ keys m := by
  rw [contains, Option.isSome_iff_ne_none, ne_eq, get?_eq_none_iff, Decidable.not_not]

theorem contains_of_get? {m : Assoc κ α} {k : κ} {v : α} (h : get? m k = some v) :
    contains m k := by
  rw [contains, h]
  rfl

theorem contains_ofList {pairs : List (κ × α)} {k : κ} :
    contains (ofList pairs) k ↔ k ∈ keys pairs := by
  rw [contains, get?_ofList, ← contains, contains_iff]
  simp [keys]

theorem insert_of_not_mem {m : Assoc κ α} {key : κ} (h : key ∉ keys m) (value : α) :
    insert m key value = m ++ [(key, value)] := by
  induction m with
  | nil => rfl
  | cons p rest ih =>
    simp only [keys, map_cons, mem_cons, not_or] at h
    have hne : p.1 ≠ key := fun e => h.1 e.symm
    simp [insert, hne, ih h.2]

theorem keys_insert_of_mem {m : Assoc κ α} {key : κ} (h : key ∈ keys m) (value : α) :
    keys (insert m key value) = keys m := by
  induction m with
  | nil => simp [keys] at h
  | cons p rest ih =>
    by_cases hp : p.1 = key
    · simp [insert, keys, hp]
    · have hrest : key ∈ keys rest := by
        rcases mem_cons.1 h with h | h
        · exact absurd h.symm hp
        · exact h
      simpa [insert, keys, hp] using ih hrest

/-- Inserting keeps the keys distinct. -/
theorem nodup_insert {m : Assoc κ α} (h : (keys m).Nodup) (key : κ) (value : α) :
    (keys (insert m key value)).Nodup := by
  by_cases hkey : key ∈ keys m
  · rw [keys_insert_of_mem hkey]
    exact h
  · rw [insert_of_not_mem hkey, keys, map_append, nodup_append]
    refine ⟨h, by simp, ?_⟩
    rintro k hk k' hk' rfl
    obtain rfl : k = key := by simpa using hk'
    exact hkey hk

theorem mem_of_mem_insert {m : Assoc κ α} {key : κ} {value : α} {p : κ × α}
    (h : p ∈ insert m key value) : p = (key, value) ∨ p ∈ m := by
  induction m with
  | nil => exact .inl (mem_singleton.1 h)
  | cons q rest ih =>
    rw [insert] at h
    split at h
    · rename_i hk
      rcases mem_cons.1 h with h | h
      · exact .inl (hk ▸ h)
      · exact .inr (mem_cons_of_mem _ h)
    · rcases mem_cons.1 h with h | h
      · exact .inr (h ▸ mem_cons_self)
      · exact (ih h).imp_right (mem_cons_of_mem _)

theorem merge_spec {m : Assoc κ α} (hm : (keys m).Nodup) (pairs : List (κ × α)) :
    (∀ p ∈ merge m pairs, p ∈ m ∨ p ∈ pairs) ∧ (keys (merge m pairs)).Nodup := by
  induction pairs generalizing m with
  | nil => exact ⟨fun p hp => .inl hp, hm⟩
  | cons q rest ih =>
    obtain ⟨hfrom, hnodup⟩ := ih (nodup_insert hm q.1 q.2)
    refine ⟨fun p hp => ?_, hnodup⟩
    rcases hfrom p hp with hp | hp
    · rcases mem_of_mem_insert hp with rfl | hp
      · exact .inr mem_cons_self
      · exact .inl hp
    · exact .inr (mem_cons_of_mem _ hp)

theorem mem_of_get?_merge {m : Assoc κ α} {pairs : List (κ × α)} {k : κ} {v : α}
    (h : get? (merge m pairs) k = some v) : (k, v) ∈ pairs ∨ get? m k = some v := by
  rw [get?_merge] at h
  rcases Option.or_eq_some_iff.1 h with h | ⟨-, h⟩
  · exact .inl (mem_reverse.1 (mem_of_get? h))
  · exact .inr h

theorem get?_merge_of_mem {m : Assoc κ α} {pairs : List (κ × α)} {k : κ} {v : α}
    (h : (k, v) ∈ pairs) (hsame : ∀ v', (k, v') ∈ pairs → v' = v) :
    get? (merge m pairs) k = some v := by
  have hkey : k ∈ keys pairs.reverse := mem_map.2 ⟨_, mem_reverse.2 h, rfl⟩
  obtain ⟨v', hv'⟩ := Option.isSome_iff_exists.1 (contains_iff.2 hkey)
  rw [get?_merge, hv', Option.some_or, hsame v' (mem_reverse.1 (mem_of_get? hv'))]

theorem mem_of_mem_ofList {pairs : List (κ × α)} {p : κ × α} (h : p ∈ ofList pairs) : p ∈ pairs :=
  ((merge_spec (m := []) .nil pairs).1 p h).resolve_left not_mem_nil

theorem nodup_ofList (pairs : List (κ × α)) : (keys (ofList pairs)).Nodup :=
  (merge_spec (m := []) .nil pairs).2

theorem merge_of_nodup {m : Assoc κ α} {pairs : List (κ × α)}
    (h : (keys m ++ keys pairs).Nodup) : merge m pairs = m ++ pairs := by
  induction pairs generalizing m with
  | nil => simp [merge]
  | cons p rest ih =>
    have hnew : p.1 ∉ keys m := by
      intro hmem
      exact (nodup_append.1 h).2.2 _ hmem _ (by simp [keys]) rfl
    have hstep : merge m (p :: rest) = merge (insert m p.1 p.2) rest := rfl
    rw [hstep, insert_of_not_mem hnew, ih (by simpa [keys] using h)]
    simp

theorem ofList_of_nodup {pairs : List (κ × α)} (h : (keys pairs).Nodup) : ofList pairs = pairs := by
  rw [ofList, merge_of_nodup (by simpa [keys] using h)]
  rfl

theorem get?_erase_of_ne {m : Assoc κ α} {key k : κ} (h : key ≠ k) :
    get? (erase m key) k = get? m k := by
  induction m with
  | nil => rfl
  | cons p rest ih =>
    by_cases hkey : p.1 = key
    · simp [erase, get?, hkey, h]
    · rw [erase, if_neg hkey]
      by_cases hk : p.1 = k <;> simp [get?, hk, ih]

theorem get?_erase {m : Assoc κ α} (h : (keys m).Nodup) (key k : κ) :
    get? (erase m key) k = if key = k then none else get? m k := by
  split
  · subst ‹key = k›
    induction m with
    | nil => rfl
    | cons p rest ih =>
      simp only [keys, map_cons, nodup_cons] at h
      by_cases hkey : p.1 = key
      · simpa [erase, hkey] using (get?_eq_none_iff rest key).2 (hkey ▸ h.1)
      · simp [erase, get?, hkey, ih h.2]
  · exact get?_erase_of_ne ‹_›

theorem keys_erase_sublist (m : Assoc κ α) (key : κ) : (keys (erase m key)).Sublist (keys m) := by
  induction m with
  | nil => exact .slnil
  | cons p rest ih =>
    by_cases hp : p.1 = key
    · simp [erase, keys, hp]
    · simpa [erase, keys, hp] using ih

theorem get?_eq_some_iff {m : Assoc κ α} (h : (keys m).Nodup)
    (k : κ) (v : α) : get? m k = some v ↔ (k, v) ∈ m := by
  induction m with
  | nil => simp
  | cons p rest ih =>
    simp only [keys, map_cons, nodup_cons] at h
    by_cases hk : p.1 = k
    · have hrest : (k, v) ∉ rest := fun hmem => h.1 (mem_map.2 ⟨_, hmem, hk.symm⟩)
      obtain ⟨k', v'⟩ := p
      obtain rfl : k' = k := hk
      simp [get?, hrest, eq_comm]
    · have hne : (k, v) ≠ p := fun heq => hk (by rw [← heq])
      simp only [get?, if_neg hk, ih h.2, mem_cons, hne, false_or]

theorem get?_perm {m n : Assoc κ α} (h : m.Perm n)
    (hn : (keys n).Nodup) (k : κ) : get? m k = get? n k := by
  have hm : (keys m).Nodup := (h.map Prod.fst).nodup_iff.2 hn
  apply Option.ext
  intro v
  rw [get?_eq_some_iff hm, get?_eq_some_iff hn, h.mem_iff]

theorem get?_map (m : Assoc κ α) (f : α → β) (k : κ) :
    get? (m.map fun p => (p.1, f p.2)) k = (get? m k).map f := by
  induction m with
  | nil => rfl
  | cons p rest ih =>
    by_cases hk : p.1 = k
    · simp [get?, hk]
    · simp [get?, hk, ih]

end Assoc

end AddonBuilder
