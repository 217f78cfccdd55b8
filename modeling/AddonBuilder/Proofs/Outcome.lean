/-!
# Computations that may fail

What can be said about the parts of a computation when the whole of it succeeds.
-/

namespace AddonBuilder

open List

variable {ε α β ε' : Type} {x : Except ε α} {f : α → Except ε β} {b : β}

/-- Two steps succeed exactly if both do. -/
theorem bind_ok_iff : (x >>= f) = .ok b ↔ ∃ a, x = .ok a ∧ f a = .ok b := by
  cases x with
  | error e => simp [bind, Except.bind]
  | ok a => simp [bind, Except.bind]

variable {e : ε}

theorem bind_eq_error_iff :
    (x >>= f) = .error e ↔ x = .error e ∨ ∃ a, x = .ok a ∧ f a = .error e := by
  cases x with
  | error e' => simp [bind, Except.bind]
  | ok a => simp [bind, Except.bind]

variable {g : ε → ε'}

theorem mapError_eq_error_iff {e : ε'} :
    x.mapError g = .error e ↔ ∃ e', x = .error e' ∧ e = g e' := by
  cases x with
  | error e' =>
    constructor
    · intro h
      cases h
      exact ⟨e', rfl, rfl⟩
    · rintro ⟨e'', h, rfl⟩
      cases h
      rfl
  | ok a =>
    constructor
    · intro h
      cases h
    · rintro ⟨e', h, -⟩
      cases h

variable {a : α}

theorem mapError_eq_ok_iff : x.mapError g = .ok a ↔ x = .ok a := by
  cases x with
  | error e' =>
    constructor
    · intro h
      cases h
    · intro h
      cases h
  | ok b =>
    constructor
    · intro h
      cases h
      rfl
    · intro h
      cases h
      rfl

theorem ok_bind (a : α) (f : α → Except ε β) : (Except.ok a >>= f) = f a := rfl

theorem toOption_eq_some_iff : x.toOption = some a ↔ x = .ok a := by
  cases x with
  | error e => simp [Except.toOption]
  | ok b => simp [Except.toOption]

theorem pure_ok_iff {b : α} : (pure a : Except ε α) = .ok b ↔ a = b := by
  simp [pure, Except.pure]

variable {l : List α}

theorem mapM_eq_ok {g : α → β} (h : ∀ a ∈ l, f a = .ok (g a)) : l.mapM f = .ok (l.map g) := by
  induction l with
  | nil => rfl
  | cons a l ih =>
    rw [mapM_cons, h a (by simp), ih fun b hb => h b (mem_cons_of_mem _ hb)]
    rfl

theorem exists_mapM_eq_ok (h : ∀ a ∈ l, ∃ b, f a = .ok b) :
    ∃ bs, l.mapM f = .ok bs ∧ (∀ b ∈ bs, ∃ a ∈ l, f a = .ok b) ∧
      ∀ a ∈ l, ∃ b ∈ bs, f a = .ok b := by
  induction l with
  | nil => exact ⟨[], rfl, nofun, nofun⟩
  | cons a l ih =>
    obtain ⟨b, hb⟩ := h a (by simp)
    obtain ⟨bs, hbs, hfrom, hto⟩ := ih fun a' ha' => h a' (mem_cons_of_mem _ ha')
    refine ⟨b :: bs, by rw [mapM_cons, hb, hbs]; rfl, ?_, ?_⟩
    · grind
    · grind

variable {bs : List β}

theorem exists_of_mem_mapM (h : l.mapM f = .ok bs) (hb : b ∈ bs) : ∃ a ∈ l, f a = .ok b := by
  induction l generalizing bs with
  | nil =>
    obtain rfl : [] = bs := pure_ok_iff.1 h
    cases hb
  | cons a l ih =>
    rw [mapM_cons] at h
    obtain ⟨first, hfirst, h⟩ := bind_ok_iff.1 h
    obtain ⟨more, hmore, h⟩ := bind_ok_iff.1 h
    obtain rfl : first :: more = bs := pure_ok_iff.1 h
    grind

theorem exists_of_mapM_eq_error (h : l.mapM f = .error e) : ∃ a ∈ l, f a = .error e := by
  induction l with
  | nil => cases h
  | cons a l ih =>
    rw [mapM_cons] at h
    rcases bind_eq_error_iff.1 h with h | ⟨first, -, h⟩
    · exact ⟨a, mem_cons_self, h⟩
    · rcases bind_eq_error_iff.1 h with h | ⟨more, -, h⟩
      · obtain ⟨b, hb, hf⟩ := ih h
        exact ⟨b, mem_cons_of_mem _ hb, hf⟩
      · cases h

theorem map_of_mapM {γ : Type} {g : β → γ}
    {g' : α → γ} (hf : ∀ a b, f a = .ok b → g b = g' a) (h : l.mapM f = .ok bs) :
    bs.map g = l.map g' := by
  induction l generalizing bs with
  | nil =>
    obtain rfl : [] = bs := pure_ok_iff.1 h
    rfl
  | cons a l ih =>
    rw [mapM_cons] at h
    obtain ⟨first, hfirst, h⟩ := bind_ok_iff.1 h
    obtain ⟨rest, hrest, h⟩ := bind_ok_iff.1 h
    obtain rfl : first :: rest = bs := pure_ok_iff.1 h
    rw [map_cons, map_cons, hf a first hfirst, ih hrest]

theorem exists_of_mem_filterMapM {f : α → Except ε (Option β)}
    (h : l.filterMapM f = .ok bs) (hb : b ∈ bs) : ∃ a ∈ l, f a = .ok (some b) := by
  induction l generalizing bs with
  | nil =>
    obtain rfl : [] = bs := pure_ok_iff.1 h
    cases hb
  | cons a l ih =>
    rw [filterMapM_cons] at h
    obtain ⟨first, hfirst, h⟩ := bind_ok_iff.1 h
    cases first with
    | none =>
      obtain ⟨a', ha', hf⟩ := ih h hb
      exact ⟨a', mem_cons_of_mem _ ha', hf⟩
    | some b' =>
      obtain ⟨rest, hrest, h⟩ := bind_ok_iff.1 h
      obtain rfl : b' :: rest = bs := pure_ok_iff.1 h
      grind

theorem exists_mem_of_mapM (h : l.mapM f = .ok bs) (ha : a ∈ l) : ∃ b ∈ bs, f a = .ok b := by
  induction l generalizing bs with
  | nil => cases ha
  | cons a' l ih =>
    rw [mapM_cons] at h
    obtain ⟨first, hfirst, h⟩ := bind_ok_iff.1 h
    obtain ⟨more, hmore, h⟩ := bind_ok_iff.1 h
    obtain rfl : first :: more = bs := pure_ok_iff.1 h
    grind

/-- What every step of a chain does to its value, the whole chain does. -/
theorem foldlM_rel {R : β → β → Prop} (hrefl : ∀ b, R b b)
    (htrans : ∀ a b c, R a b → R b c → R a c) {f : β → α → Except ε β} {b' : β}
    (hstep : ∀ a ∈ l, ∀ b b', f b a = .ok b' → R b b') (h : l.foldlM f b = .ok b') : R b b' := by
  induction l generalizing b with
  | nil =>
    obtain rfl : b = b' := pure_ok_iff.1 h
    exact hrefl b
  | cons a l ih =>
    rw [foldlM_cons] at h
    obtain ⟨c, hc, h⟩ := bind_ok_iff.1 h
    grind

/-- A chain fails at one of its steps, after the steps before it. -/
theorem exists_of_foldlM_eq_error {f : β → α → Except ε β} (h : l.foldlM f b = .error e) :
    ∃ before a after c, l = before ++ a :: after ∧ before.foldlM f b = .ok c ∧ f c a = .error e := by
  induction l generalizing b with
  | nil => cases h
  | cons a l ih =>
    rw [foldlM_cons] at h
    rcases bind_eq_error_iff.1 h with h | ⟨c, hc, h⟩
    · exact ⟨[], a, l, b, rfl, rfl, h⟩
    · obtain ⟨before, a', after, c', rfl, hok, hfail⟩ := ih h
      refine ⟨a :: before, a', after, c', rfl, ?_, hfail⟩
      rw [foldlM_cons, hc, ok_bind, hok]

theorem mapM_eq_some {f : α → Option β} {g : α → β}
    (h : ∀ a ∈ l, f a = some (g a)) : l.mapM f = some (l.map g) := by
  induction l with
  | nil => rfl
  | cons a l ih =>
    rw [mapM_cons, h a (by simp), ih fun b hb => h b (mem_cons_of_mem _ hb)]
    rfl

end AddonBuilder
