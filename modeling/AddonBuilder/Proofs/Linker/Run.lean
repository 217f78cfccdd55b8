import AddonBuilder.Linker.Manifest

/-!
# Runs of linking

`Runs x σ r τ` says that a step, started on the state `σ`, ends with the outcome `r` and leaves the
state `τ`.
-/

namespace AddonBuilder.Linker

/-- A step as a relation of the states before and after it. -/
def Runs {ε ς α : Type} (x : ExceptT ε (StateM ς) α) (σ : ς) (r : Except ε α) (τ : ς) : Prop :=
  x.run.run σ = (r, τ)

section Rules

variable {ε ς α β : Type} {σ τ : ς}

theorem runs_iff_of_run {x : ExceptT ε (StateM ς) α} {e r : Except ε α} {ρ : ς}
    (hx : x.run.run σ = (e, ρ)) : Runs x σ r τ ↔ r = e ∧ τ = ρ := by
  rw [Runs, hx, Prod.mk.injEq, eq_comm, eq_comm (a := ρ)]

theorem runs_pure_iff {a : α} {r : Except ε α} : Runs (pure a) σ r τ ↔ r = .ok a ∧ τ = σ :=
  runs_iff_of_run rfl

theorem runs_throw_iff {e : ε} {r : Except ε α} :
    Runs (throw e : ExceptT ε (StateM ς) α) σ r τ ↔ r = .error e ∧ τ = σ :=
  runs_iff_of_run rfl

theorem runs_modify_iff {f : ς → ς} {r : Except ε Unit} :
    Runs (modify f : ExceptT ε (StateM ς) Unit) σ r τ ↔ r = .ok () ∧ τ = f σ :=
  runs_iff_of_run rfl

theorem runs_lift_iff {e r : Except ε α} :
    Runs (liftM e : ExceptT ε (StateM ς) α) σ r τ ↔ r = e ∧ τ = σ :=
  runs_iff_of_run rfl

/-- A chain of two steps ends where the second one ends, or where the first one fails. -/
theorem runs_bind_iff {x : ExceptT ε (StateM ς) α} {f : α → ExceptT ε (StateM ς) β}
    {r : Except ε β} :
    Runs (x >>= f) σ r τ ↔
      (∃ a ρ, Runs x σ (.ok a) ρ ∧ Runs (f a) ρ r τ) ∨
        ∃ e, r = .error e ∧ Runs x σ (.error e) τ := by
  have hrun : (x >>= f).run.run σ =
      match x.run.run σ with
      | (.ok a, ρ) => (f a).run.run ρ
      | (.error e, ρ) => (.error e, ρ) := by
    rw [ExceptT.run_bind, StateT.run_bind]
    rcases x.run.run σ with ⟨e | a, ρ⟩ <;> rfl
  unfold Runs
  grind

/-- Two parts of linking succeed exactly if both do. -/
theorem runs_bind_ok_iff {x : ExceptT ε (StateM ς) α} {f : α → ExceptT ε (StateM ς) β} {b : β} :
    Runs (x >>= f) σ (.ok b) τ ↔ ∃ a ρ, Runs x σ (.ok a) ρ ∧ Runs (f a) ρ (.ok b) τ := by
  rw [runs_bind_iff]
  constructor
  · rintro (h | ⟨e, h, -⟩)
    · exact h
    · cases h
  · exact .inl

end Rules

namespace Manifest

def claimed (σ : Manifest) (p : Place) : Manifest :=
  if Assoc.contains σ.entries p then σ else { σ with entries := Assoc.insert σ.entries p {} }

theorem followed_claimed (σ : Manifest) (p : Place) : (σ.claimed p).followed = σ.followed := by
  unfold claimed
  split <;> rfl

/-- The manifest when a module begins to be followed. -/
def reached (σ : Manifest) (m : Module) : Manifest :=
  { σ.claimed m.toPlace with followed := σ.followed ++ [m] }

end Manifest

section Steps

variable {α : Type} {σ τ : Manifest}

theorem runs_claim_iff {p : Place} {r : Except Stop Unit} :
    Runs (claim p) σ r τ ↔ r = .ok () ∧ τ = σ.claimed p :=
  runs_modify_iff

/-- Only a module that has not been followed is. -/
theorem runs_reach_iff {follow : Module → Linking Unit} {m : Module} {r : Except Stop Unit} :
    Runs (reach follow m) σ r τ ↔
      if m ∈ σ.followed then r = .ok () ∧ τ = σ else Runs (follow m) (σ.reached m) r τ := by
  have hreach : (reach follow m).run.run σ =
      if m ∈ σ.followed then (.ok (), σ) else (follow m).run.run (σ.reached m) := by
    have hget : (reach follow m).run.run σ = ((if !σ.followed.contains m then
        claim m.toPlace >>= fun _ =>
          (modify fun x => { x with followed := x.followed ++ [m] }) >>= fun _ => follow m
        else pure ()) : Linking Unit).run.run σ := rfl
    rw [hget]
    by_cases hm : m ∈ σ.followed
    · rw [if_pos hm, if_neg (by simpa using hm)]
      rfl
    · rw [if_neg hm, if_pos (by simpa using hm), Manifest.reached, ← σ.followed_claimed m.toPlace]
      rfl
  split at hreach
  case isTrue hm =>
    rw [if_pos hm]
    exact runs_iff_of_run hreach
  case isFalse hm =>
    rw [if_neg hm, Runs, hreach]
    rfl

theorem runs_perform_iff {e : Except Fault α} {r : Except Stop α} :
    Runs (perform e) σ r τ ↔ r = e.mapError .fault ∧ τ = σ := by
  cases e with
  | ok a => exact runs_pure_iff
  | error f => exact runs_throw_iff

theorem runs_perform_ok_iff {e : Except Fault α} {a : α} :
    Runs (perform e) σ (.ok a) τ ↔ e = .ok a ∧ τ = σ := by
  rw [runs_perform_iff]
  cases e with
  | ok b =>
    constructor
    · rintro ⟨h, hτ⟩
      cases h
      exact ⟨rfl, hτ⟩
    · rintro ⟨h, hτ⟩
      cases h
      exact ⟨rfl, hτ⟩
  | error f =>
    constructor
    · rintro ⟨h, -⟩
      cases h
    · rintro ⟨h, -⟩
      cases h

theorem runs_runSearch_iff {x : Search α} {r : Except Stop (α × List String)} :
    Runs (runSearch x) σ r τ ↔
      r = ((x.run.run {}).1.map (·, (x.run.run {}).2.lookedIn)).mapError .fault ∧
        τ = { σ with notes := σ.notes ++ (x.run.run {}).2.notes } := by
  unfold runSearch
  rcases x.run.run {} with ⟨e | a, trail⟩ <;> exact runs_iff_of_run rfl

/-- A search leaves nothing in the manifest but its notes. -/
theorem runs_runSearch_ok {x : Search α} {a : α} {lookedIn : List String}
    (hrun : Runs (runSearch x) σ (.ok (a, lookedIn)) τ) :
    ∃ trail, Runs x {} (.ok a) trail ∧ τ = { σ with notes := σ.notes ++ trail.notes } := by
  obtain ⟨hr, hτ⟩ := runs_runSearch_iff.1 hrun
  refine ⟨_, ?_, hτ⟩
  unfold Runs
  rcases hresult : x.run.run {} with ⟨e | b, trail⟩
  · rw [hresult] at hr
    cases hr
  · rw [hresult] at hr
    cases hr
    rfl

end Steps

end AddonBuilder.Linker
