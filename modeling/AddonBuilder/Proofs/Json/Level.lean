import AddonBuilder.Proofs.Json.GraphTree

/-!
# What a writer remembers

A writer keeps one number between its calls, the level at which it stands.
-/

namespace AddonBuilder.Json

open Options

/-- A layout without blanks at the start of lines. -/
def Options.Flat (o : Options) : Prop := ∀ n ∈ o.indent, n ≤ 0

instance (o : Options) : Decidable o.Flat :=
  inferInstanceAs (Decidable (∀ n ∈ o.indent, n ≤ 0))

theorem Options.newline_flat {n : Int} (hn : n ≤ 0) (level : Nat) : newline n level = [0x0A] := by
  have hblanks : (n * level).toNat = 0 :=
    Int.toNat_eq_zero.2 (Int.mul_nonpos_of_nonpos_of_nonneg hn (Int.natCast_nonneg level))
  simp [newline, hblanks]

theorem bracketed_flat {o : Options} (ho : o.Flat) (a b : Nat) (left right : CodePoint)
    (parts : List (List Text)) :
    bracketed o a left right parts = bracketed o b left right parts := by
  cases hindent : o.indent with
  | none => simp [bracketed, opening, between, closing, hindent]
  | some n =>
    have hn : n ≤ 0 := ho n hindent
    simp [bracketed, opening, between, closing, hindent, newline_flat hn]

/-- Two computations that take the same course from two levels.  Either both succeed and bring their
level back, with results that agree if `flat` holds, or both fail with one error, equally many
levels deeper. -/
def Alike {α : Type} (flat : Prop) (x y : Leveled α) (a b : Nat) : Prop :=
  (∃ u v, x.run.run a = (.ok u, a) ∧ y.run.run b = (.ok v, b) ∧ (flat → u = v)) ∨
    ∃ e d, x.run.run a = (.error e, a + d) ∧ y.run.run b = (.error e, b + d)

namespace Alike

variable {α β : Type} {flat : Prop} {a b : Nat}

theorem pure {u v : α} (h : flat → u = v) :
    Alike flat (Pure.pure u : Leveled α) (Pure.pure v) a b :=
  .inl ⟨u, v, rfl, rfl, h⟩

theorem throw (e : EncodeError) :
    Alike flat (MonadExcept.throw e : Leveled α) (MonadExcept.throw e) a b :=
  .inr ⟨e, 0, rfl, rfl⟩

theorem afterLift (r : Except EncodeError α) {f : α → Leveled β}
    (h : ∀ u, Alike flat (f u) (f u) a b) :
    Alike flat (Graph.write.liftExcept r >>= f) (Graph.write.liftExcept r >>= f) a b := by
  cases r with
  | ok u => exact h u
  | error e => exact throw e

theorem bind {x y : Leveled α} {f g : α → Leveled β} (h : Alike flat x y a b)
    (hnext : ∀ u v, (flat → u = v) → Alike flat (f u) (g v) a b) :
    Alike flat (x >>= f) (y >>= g) a b := by
  rcases h with ⟨u, v, hx, hy, huv⟩ | ⟨e, d, hx, hy⟩
  · have hf : (x >>= f).run.run a = (f u).run.run a := by
      simp only [ExceptT.run_bind, StateT.run_bind, hx]
      rfl
    have hg : (y >>= g).run.run b = (g v).run.run b := by
      simp only [ExceptT.run_bind, StateT.run_bind, hy]
      rfl
    unfold Alike
    rw [hf, hg]
    exact hnext u v huv
  · refine .inr ⟨e, d, ?_, ?_⟩
    · simp only [ExceptT.run_bind, StateT.run_bind, hx]
      rfl
    · simp only [ExceptT.run_bind, StateT.run_bind, hy]
      rfl

theorem mapM {f : α → Leveled β} (h : ∀ u, Alike flat (f u) (f u) a b) (l : List α) :
    Alike flat (l.mapM f) (l.mapM f) a b := by
  induction l with
  | nil => exact pure fun _ => rfl
  | cons u l ih =>
    rw [List.mapM_cons]
    refine (h u).bind fun v v' hv => ih.bind fun vs vs' hvs => pure fun hflat => ?_
    rw [hv hflat, hvs hflat]

/-- A container is written one level deeper, and only if its parts succeed is the level brought
back. -/
theorem indented {o : Options} {left right : CodePoint} {body : Leveled (List (List Text))}
    (h : ∀ a b, Alike o.Flat body body a b) :
    Alike o.Flat (Graph.indented o left right body) (Graph.indented o left right body) a b := by
  have hresult : ∀ {parts parts' : List (List Text)}, (o.Flat → parts = parts') → o.Flat →
      bracketed o a left right parts = bracketed o b left right parts' := by
    intro parts parts' hparts hflat
    rw [hparts hflat, bracketed_flat hflat a b]
  -- The level at which the parts of a container at a level are written.
  let inner (level : Nat) := if o.indent.isSome then level + 1 else level
  rcases h (inner a) (inner b) with ⟨parts, parts', ha, hb, hparts⟩ | ⟨e, d, ha, hb⟩
  · have hrun : ∀ {level : Nat} {parts : List (List Text)},
        body.run.run (inner level) = (.ok parts, inner level) →
        (Graph.indented o left right body).run.run level =
          (.ok (bracketed o level left right parts), level) :=
      fun hbody => Yields.indented hbody
    exact .inl ⟨_, _, hrun ha, hrun hb, hresult hparts⟩
  · have hrun : ∀ {level : Nat}, body.run.run (inner level) = (.error e, inner level + d) →
        (Graph.indented o left right body).run.run level = (.error e, level + (inner 0 + d)) := by
      intro level hbody
      have hlevel : inner level + d = level + (inner 0 + d) := by
        dsimp only [inner]
        split <;> omega
      rw [run_indented, ExceptT.run_bind, StateT.run_bind, hbody, hlevel]
      rfl
    exact .inr ⟨e, _, hrun ha, hrun hb⟩

end Alike

namespace Graph

/-- The members of a table, given that what they hold is written in the same course. -/
theorem alike_members {g : Graph} {o : Options} {codec : Option Codec} {fuel : Nat}
    {open_ : List Nat} (h : ∀ slot a b,
      Alike o.Flat (g.write o codec fuel open_ slot) (g.write o codec fuel open_ slot) a b)
    (members : List (Key × Slot)) (a b : Nat) :
    Alike o.Flat
      (members.mapM (memberPart g o codec fuel open_) >>= fun parts => pure (parts.filterMap id))
      (members.mapM (memberPart g o codec fuel open_) >>= fun parts => pure (parts.filterMap id))
      a b := by
  have hpart : ∀ m, Alike o.Flat (memberPart g o codec fuel open_ m)
      (memberPart g o codec fuel open_ m) a b := by
    intro m
    refine .afterLift _ fun key => ?_
    cases key with
    | none => exact .pure fun _ => rfl
    | some k =>
      refine (h m.2 a b).bind fun chunks chunks' hchunks => .pure fun hflat => ?_
      rw [hchunks hflat]
  refine (Alike.mapM hpart members).bind fun parts parts' hparts => .pure fun hflat => ?_
  rw [hparts hflat]

/-- **A slot is written in the same course from every level.** -/
theorem alike_write (g : Graph) (o : Options) (codec : Option Codec) (fuel : Nat)
    (open_ : List Nat) (slot : Slot) (a b : Nat) :
    Alike o.Flat (g.write o codec fuel open_ slot) (g.write o codec fuel open_ slot) a b := by
  induction fuel generalizing open_ slot a b with
  | zero => exact .throw _
  | succ fuel ih =>
    cases slot with
    | null | bool _ | int _ | text _ =>
      rw [write]
      exact .pure fun _ => rfl
    | float x =>
      rw [write]
      exact .afterLift _ fun t => .pure fun _ => rfl
    | bytes s =>
      rw [write]
      exact .afterLift _ fun t => .pure fun _ => rfl
    | ref address =>
      rw [write]
      split
      · exact .throw _
      · split
        · exact .pure fun _ => rfl
        split
        · exact .throw _
        · exact .indented fun a b => .mapM (fun slot => ih _ slot a b) _
      · split
        · exact .pure fun _ => rfl
        split
        · exact .throw _
        · exact .indented fun a b => .mapM (fun slot => ih _ slot a b) _
      · split
        · exact .pure fun _ => rfl
        split
        · exact .throw _
        · refine .indented fun a b => ?_
          exact alike_members (ih _) _ a b
      · split
        · exact .throw _
        split
        · exact .throw _
        · exact ih _ _ a b

end Graph

namespace Writer

/-- The whole text of a graph, and the writer after it. -/
def encode (w : Writer) (g : Graph) : Except EncodeError Text × Writer :=
  ((w.write g).1.map List.flatten, (w.write g).2)

/-- A writer after graphs that were written one after another, with or without success. -/
def after (w : Writer) (graphs : List Graph) : Writer :=
  graphs.foldl (fun w g => (w.encode g).2) w

/-- What comes of graphs that are written one after another. -/
def outcomes (w : Writer) : List Graph → List (Except EncodeError Text)
  | [] => []
  | g :: rest => (w.encode g).1 :: (w.encode g).2.outcomes rest

def atLevel (w : Writer) (level : Nat) : Writer := { w with level }

variable (w : Writer)

/-- A call changes nothing of a writer but its level. -/
theorem after_eq (graphs : List Graph) : w.after graphs = w.atLevel (w.after graphs).level := by
  induction graphs generalizing w with
  | nil => rfl
  | cons g rest ih => exact ih (w.encode g).2

theorem outcomes_append (graphs rest : List Graph) :
    w.outcomes (graphs ++ rest) = w.outcomes graphs ++ (w.after graphs).outcomes rest := by
  induction graphs generalizing w with
  | nil => rfl
  | cons g graphs ih => exact congrArg _ (ih (w.encode g).2)

theorem length_outcomes (graphs : List Graph) : (w.outcomes graphs).length = graphs.length := by
  induction graphs generalizing w with
  | nil => rfl
  | cons g rest ih => exact congrArg (· + 1) (ih (w.encode g).2)

theorem encode_atLevel (g : Graph) (level : Nat) :
    (∃ t t', (w.encode g).1 = .ok t ∧ (w.encode g).2.level = w.level ∧
      ((w.atLevel level).encode g).1 = .ok t' ∧ ((w.atLevel level).encode g).2.level = level ∧
      (w.options.Flat → t = t')) ∨
    ∃ e d, (w.encode g).1 = .error e ∧ (w.encode g).2.level = w.level + d ∧
      ((w.atLevel level).encode g).1 = .error e ∧
      ((w.atLevel level).encode g).2.level = level + d := by
  rcases g.alike_write w.options w.codec (g.cells.size + 1) [] g.root w.level level with
    ⟨u, v, hu, hv, huv⟩ | ⟨e, d, hu, hv⟩
  · refine .inl ⟨u.flatten, v.flatten, ?_, ?_, ?_, ?_, fun hflat => by rw [huv hflat]⟩
    all_goals simp [encode, write, atLevel, hu, hv, Except.map]
  · refine .inr ⟨e, d, ?_, ?_, ?_, ?_⟩
    all_goals simp [encode, write, atLevel, hu, hv, Except.map]

theorem level_of_ok {g : Graph} {t : Text} (h : (w.encode g).1 = .ok t) :
    (w.encode g).2.level = w.level := by
  rcases w.encode_atLevel g w.level with ⟨_, _, _, hlevel, _⟩ | ⟨e, d, he, _⟩
  · exact hlevel
  · rw [he] at h
    cases h

theorem encode_eq_error_iff (g : Graph) (level : Nat) (e : EncodeError) :
    ((w.atLevel level).encode g).1 = .error e ↔ (w.encode g).1 = .error e := by
  rcases w.encode_atLevel g level with ⟨t, t', ht, _, ht', _⟩ | ⟨e', d, he, _, he', _⟩
  · simp [ht, ht']
  · simp [he, he']

theorem encode_flat (hflat : w.options.Flat) (g : Graph) (level : Nat) :
    ((w.atLevel level).encode g).1 = (w.encode g).1 := by
  rcases w.encode_atLevel g level with ⟨t, t', ht, _, ht', _, heq⟩ | ⟨e', d, he, _, he', _⟩
  · rw [ht, ht', heq hflat]
  · rw [he, he']

/-- A call moves the level by the same number from everywhere. -/
theorem level_encode (hw : w.level = 0) (g : Graph) (level : Nat) :
    ((w.atLevel level).encode g).2.level = level + (w.encode g).2.level := by
  rcases w.encode_atLevel g level with ⟨_, _, _, hl, _, hl', _⟩ | ⟨_, d, _, hl, _, hl'⟩
  · rw [hl, hl', hw, Nat.add_zero]
  · rw [hl, hl', hw, Nat.zero_add]

/-- **The level adds up.**  Every failure leaves it deeper by what that call alone would have
left. -/
theorem level_after (hw : w.level = 0) (graphs : List Graph) (level : Nat) :
    ((w.atLevel level).after graphs).level =
      level + (graphs.map fun g => (w.encode g).2.level).sum := by
  induction graphs generalizing level with
  | nil => rfl
  | cons g rest ih =>
    have hstep : (w.atLevel level).after (g :: rest) =
        (w.atLevel ((w.atLevel level).encode g).2.level).after rest := rfl
    rw [hstep, ih, w.level_encode hw g level, List.map_cons, List.sum_cons, Nat.add_assoc]

end Writer

/-- **What a call gives after others.**  Each call of a writer gives one outcome.  It is the error
that a new writer gives, or it is a text where a new writer gives one; and it is the same text if
the layout is flat or if no call before it left a container open, as only a call that failed can. -/
theorem outcome_after (o : Options) (codec : Option Codec) (before rest : List Graph) (g : Graph) :
    let w : Writer := { options := o, codec }
    ∃ outcome, w.outcomes (before ++ g :: rest) =
        w.outcomes before ++ outcome :: (w.after (before ++ [g])).outcomes rest ∧
      (w.outcomes before).length = before.length ∧
      (∀ e, outcome = .error e ↔ (w.encode g).1 = .error e) ∧
      (o.Flat ∨ (before.map fun h => (w.encode h).2.level).sum = 0 → outcome = (w.encode g).1) ∧
      ∀ h t, (w.encode h).1 = .ok t → (w.encode h).2.level = 0 := by
  intro w
  have hlate : w.after before = w.atLevel (before.map fun h => (w.encode h).2.level).sum := by
    rw [w.after_eq before, ← Nat.zero_add (List.sum _), ← w.level_after rfl]
    rfl
  refine ⟨((w.after before).encode g).1, ?_, w.length_outcomes before, ?_, ?_, ?_⟩
  · have hafter : w.after (before ++ [g]) = ((w.after before).encode g).2 := by
      simp [Writer.after]
    rw [w.outcomes_append, hafter]
    rfl
  · intro e
    rw [hlate, w.encode_eq_error_iff]
  · rintro (hflat | hsum)
    · rw [hlate, w.encode_flat hflat]
    · rw [hlate, hsum]
      rfl
  · intro h t ht
    exact w.level_of_ok ht

/-- A writer that failed inside a list indents the next list too deeply. -/
theorem not_fresh_after_failure :
    ¬ ∀ (o : Options) (codec : Option Codec) (graphs : List Graph),
      ({ options := o, codec } : Writer).outcomes graphs =
        graphs.map fun g => (({ options := o, codec } : Writer).encode g).1 := by
  intro h
  have hlast := congrArg List.getLast? (h { indent := some 2 } (some .utf8)
    [⟨#[.list [.ref 1], .other "<thing>" none], .ref 0⟩, ⟨#[.list [.int 1]], .ref 0⟩])
  revert hlast
  decide

end AddonBuilder.Json
