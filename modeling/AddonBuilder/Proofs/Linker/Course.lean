import AddonBuilder.Proofs.Linker.Steps

/-!
# The course of linking

How long linking goes on depends only on the modules that it calls for.
-/

namespace AddonBuilder.Linker

open List

variable {s : Setting} {scope : Scope} {m : Module} {C : Module → Manifest → Prop} {α : Type}
  {call : Module → Linking Unit} {x : (Module → Linking Unit) → Linking α} {σ τ : Manifest} {d : Nat}

/-- No module is followed twice. -/
theorem Steps.nodup (h : Steps s scope σ τ) : σ.followed.Nodup → τ.followed.Nodup := by
  refine h.invariant (I := fun τ => τ.followed.Nodup) fun σ τ hstep hσ => ?_
  cases hstep with
  | claimed | finder => rwa [σ.followed_claimed]
  | @reached m _ hnew =>
    refine nodup_append.2 ⟨hσ, by simp, ?_⟩
    rintro m' hm' _ hm rfl
    rw [mem_singleton.1 hm] at hm'
    exact hnew hm'
  | _ => exact hσ

theorem Steps.met (h : Steps s scope σ τ) :
    (∀ m ∈ σ.followed, Met s scope m) → ∀ m ∈ τ.followed, Met s scope m := by
  refine h.invariant (I := fun τ => ∀ m ∈ τ.followed, Met s scope m) fun σ τ hstep hσ => ?_
  cases hstep with
  | claimed | finder => rwa [σ.followed_claimed]
  | reached hm =>
    intro m' hm'
    rcases mem_append.1 hm' with hm' | hm'
    · exact hσ m' hm'
    · rwa [mem_singleton.1 hm']
  | _ => exact hσ

/-- A part of linking that follows at least `d` new modules if a depth did not suffice. -/
def Deep (d : Nat) (x : Linking α) : Prop :=
  ∀ σ τ, Runs x σ (.error .endless) τ → σ.followed.length + d ≤ τ.followed.length

theorem Plan.deep (h : Plan s scope C σ x) (hobeys : Obeys s scope C call)
    (hcall : ∀ m, Met s scope m → Deep d (call m)) (hrun : Runs (x call) σ (.error .endless) τ) :
    σ.followed.length + d ≤ τ.followed.length := by
  induction h generalizing τ with
  | perform =>
    obtain ⟨f, -, hf⟩ := mapError_eq_error_iff.1 (runs_perform_iff.1 hrun).1.symm
    cases hf
  | act => cases (runs_modify_iff.1 hrun).1
  | call hm => exact hcall _ hm _ _ hrun
  | bind hx hf ihx ihf =>
    rcases runs_bind_iff.1 hrun with ⟨a, ρ, hfirst, hrest⟩ | ⟨e, he, hfirst⟩
    · have hgrows := (hx.runs hobeys hfirst).1.grows.followed.length_le
      have hrest := ihf call a ρ hobeys hfirst hrest
      omega
    · cases he
      exact ihx hfirst

theorem Deep.reach {follow : Module → Linking Unit} (h : Deep d (follow m)) :
    Deep (d + 1) (reach follow m) := by
  intro σ τ hrun
  rw [runs_reach_iff] at hrun
  split at hrun
  · cases hrun.1
  · have hle := h _ τ hrun
    rw [Manifest.reached, length_append, length_singleton] at hle
    omega

/-- If a depth does not suffice, that many new modules were followed. -/
theorem follow_deep (d : Nat) (hm : Met s scope m) : Deep d (follow s d m) := by
  induction d generalizing m with
  | zero =>
    intro σ τ hrun
    rw [(runs_throw_iff.1 hrun).2]
    exact Nat.le_refl _
  | succ d ih =>
    intro σ τ hrun
    exact (plan_linkModule hm).deep (obeys_reach (obeys_follow s scope d))
      (fun m' hm' => (ih hm').reach) hrun

/-- A part of linking that ends like another one, or has not come as far because a depth did not
suffice. -/
def Extends (σ : Manifest) (x y : Linking α) : Prop :=
  ∀ r τ r' τ', Runs x σ r τ → Runs y σ r' τ' →
    r ≠ .error .endless ∧ r' = r ∧ τ' = τ ∨ r = .error .endless ∧ ∀ m ∈ τ.followed, m ∈ τ'.followed

theorem extends_refl {x : Linking α} (hx : ∀ τ, ¬ Runs x σ (.error .endless) τ) :
    Extends σ x x := by
  intro r τ r' τ' hrun hrun'
  cases hrun.symm.trans hrun'
  refine .inl ⟨?_, rfl, rfl⟩
  rintro rfl
  exact hx τ hrun

theorem Plan.extends (h : Plan s scope C σ x) {call' : Module → Linking Unit}
    (hobeys : Obeys s scope C call) (hobeys' : Obeys s scope C call')
    (hcall : ∀ m, Met s scope m → ∀ σ, Extends σ (call m) (call' m)) :
    Extends σ (x call) (x call') := by
  induction h with
  | perform =>
    refine extends_refl fun τ hrun => ?_
    obtain ⟨f, -, hf⟩ := mapError_eq_error_iff.1 (runs_perform_iff.1 hrun).1.symm
    cases hf
  | act => exact extends_refl fun τ hrun => by cases (runs_modify_iff.1 hrun).1
  | call hm => exact hcall _ hm _
  | bind hx hf ihx ihf =>
    intro r τ r' τ' hrun hrun'
    rcases runs_bind_iff.1 hrun with ⟨a, ρ, hfirst, hrest⟩ | ⟨e, rfl, hfirst⟩
    · -- The first part came to its end, and so it does with more depth.
      rcases runs_bind_iff.1 hrun' with ⟨a', ρ', hfirst', hrest'⟩ | ⟨e', rfl, hfirst'⟩
      · rcases ihx _ _ _ _ hfirst hfirst' with ⟨-, hr, hτ⟩ | ⟨hr, -⟩
        · cases hr
          rw [hτ] at hrest'
          exact ihf call a ρ hobeys hfirst _ _ _ _ hrest hrest'
        · cases hr
      · rcases ihx _ _ _ _ hfirst hfirst' with ⟨-, hr, -⟩ | ⟨hr, -⟩ <;> cases hr
    · rcases runs_bind_iff.1 hrun' with ⟨a', ρ', hfirst', hrest'⟩ | ⟨e', rfl, hfirst'⟩
      · rcases ihx _ _ _ _ hfirst hfirst' with ⟨-, hr, -⟩ | ⟨hr, hsubset⟩
        · cases hr
        · have hsteps := ((hf call' a' ρ' hobeys' hfirst').runs hobeys' hrest').1
          exact .inr ⟨by cases hr; rfl, fun m hm => hsteps.grows.followed.subset (hsubset m hm)⟩
      · rcases ihx _ _ _ _ hfirst hfirst' with ⟨hne, hr, hτ⟩ | ⟨hr, hsubset⟩
        · cases hr
          exact .inl ⟨fun h => hne (by cases h; rfl), rfl, hτ⟩
        · exact .inr ⟨by cases hr; rfl, hsubset⟩

theorem Extends.reach {follow follow' : Module → Linking Unit}
    (h : ∀ σ, Extends σ (follow m) (follow' m)) : Extends σ (reach follow m) (reach follow' m) := by
  intro r τ r' τ' hrun hrun'
  rw [runs_reach_iff] at hrun hrun'
  split at hrun
  · grind
  · rw [if_neg ‹_›] at hrun'
    exact h _ r τ r' τ' hrun hrun'

/-- A deeper walk only goes on where a shallow one broke off. -/
theorem follow_extends {d' : Nat} (hle : d ≤ d') (hm : Met s scope m) (σ : Manifest) :
    Extends σ (follow s d m) (follow s d' m) := by
  induction d generalizing d' m σ with
  | zero =>
    intro r τ r' τ' hrun hrun'
    obtain ⟨hr, hτ⟩ := runs_throw_iff.1 hrun
    rw [hτ]
    exact .inr ⟨hr, fun m' hm' =>
      (obeys_follow s scope d' m hm _ _ _ hrun').1.grows.followed.subset hm'⟩
  | succ d ih =>
    obtain ⟨d', rfl⟩ : ∃ e, d' = e + 1 := ⟨d' - 1, by omega⟩
    exact (plan_linkModule hm).extends (obeys_reach (obeys_follow s scope d))
      (obeys_reach (obeys_follow s scope d')) fun m' hm' _ => .reach (ih (by omega) hm')

end AddonBuilder.Linker
