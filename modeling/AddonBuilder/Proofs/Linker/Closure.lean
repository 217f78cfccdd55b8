import AddonBuilder.Proofs.Linker.Steps

/-!
# What a manifest holds

Linking finds the modules of a program depth first, and a module that is being linked has only a
part of its entry.
-/

namespace AddonBuilder.Linker

open Json Assoc

variable {s : Setting} {scope : Scope} {σ τ : Manifest} {m : Module} {name : String}
  {line : Option Nat} {f : Entry → Entry}

/-- Everything that has been entered is right. -/
structure Sound (s : Setting) (scope : Scope) (σ : Manifest) : Prop where
  holds : ∀ p, σ.Holds p → ∃ m, Met s scope m ∧ m.toPlace = p
  source : ∀ p h, (σ.entry p).source = some h → ∃ m, Met s scope m ∧ m.toPlace = p ∧ h.file = m.file
  required : ∀ p name r, get? (σ.entry p).requirements name = some r →
    ∃ m line, Met s scope m ∧ m.toPlace = p ∧ Asks s m name line ∧ StandsFor s m name line (some r)
  distinctPlaces : (keys σ.entries).Nodup
  distinctNames : ∀ p, (keys (σ.entry p).requirements).Nodup

/-- What has to be entered about a name that a module asks for. -/
def Settled (s : Setting) (σ : Manifest) (m : Module) (name : String) (line : Option Nat) : Prop :=
  (∃ r, StandsFor s m name line (some r) ∧ contains (σ.entry m.toPlace).requirements name = true ∧
      ∀ other, isProvided name = false → Means s m name line (some other) → other ∈ σ.followed) ∨
    StandsFor s m name line none

/-- A module whose entry is complete. -/
structure Done (s : Setting) (σ : Manifest) (m : Module) : Prop where
  holds : σ.Holds m.toPlace
  source : (σ.entry m.toPlace).source.isSome
  settled : ∀ name line, Asks s m name line → Settled s σ m name line

theorem Settled.mono (h : Settled s σ m name line) (hgrows : Grows σ τ) :
    Settled s τ m name line := by
  rcases h with ⟨r, hr, hset, hfollowed⟩ | h
  · exact .inl ⟨r, hr, hgrows.required _ _ hset,
      fun other hfree hmeans => hgrows.followed.subset (hfollowed other hfree hmeans)⟩
  · exact .inr h

theorem Done.mono (h : Done s σ m) (hgrows : Grows σ τ) : Done s τ m :=
  ⟨hgrows.holds _ h.holds, hgrows.source _ h.source,
    fun name line hasks => (h.settled name line hasks).mono hgrows⟩

/-! ## What has been entered -/

namespace Sound

theorem empty (s : Setting) (scope : Scope) : Sound s scope {} where
  holds p hp := by cases hp
  source p h hp := by cases hp
  required p name r hr := by cases hr
  distinctPlaces := List.nodup_nil
  distinctNames _ := List.nodup_nil

theorem claimed (h : Sound s scope σ) (hm : Met s scope m) :
    Sound s scope (σ.claimed m.toPlace) where
  holds q hq := by
    rcases (σ.holds_claimed _ q).1 hq with rfl | hq
    · exact ⟨m, hm, rfl⟩
    · exact h.holds q hq
  source q := by
    rw [σ.entry_claimed]
    exact h.source q
  required q := by
    rw [σ.entry_claimed]
    exact h.required q
  distinctPlaces := by
    unfold Manifest.claimed
    split
    · exact h.distinctPlaces
    · exact nodup_insert h.distinctPlaces _ _
  distinctNames q := by
    rw [σ.entry_claimed]
    exact h.distinctNames q

/-- A change of the entry of a met module that enters only what is right about it. -/
theorem update (h : Sound s scope σ) (hm : Met s scope m)
    (hsource : ∀ e x, (f e).source = some x → e.source = some x ∨ x.file = m.file)
    (hrequired : ∀ e name r, get? (f e).requirements name = some r →
      get? e.requirements name = some r ∨
        ∃ line, Asks s m name line ∧ StandsFor s m name line (some r))
    (hnames : ∀ e, (keys e.requirements).Nodup → (keys (f e).requirements).Nodup) :
    Sound s scope (σ.update m.toPlace f) where
  holds q hq := by
    rcases (σ.holds_update _ q f).1 hq with rfl | hq
    · exact ⟨m, hm, rfl⟩
    · exact h.holds q hq
  source q x hx := by
    rw [σ.entry_update] at hx
    split at hx
    · rename_i hpq
      subst hpq
      rcases hsource _ _ hx with hx | hx
      · exact h.source _ x hx
      · exact ⟨m, hm, rfl, hx⟩
    · exact h.source q x hx
  required q name r hr := by
    rw [σ.entry_update] at hr
    split at hr
    · rename_i hpq
      subst hpq
      rcases hrequired _ _ _ hr with hr | ⟨line, hasks, hstands⟩
      · exact h.required _ name r hr
      · exact ⟨m, line, hm, rfl, hasks, hstands⟩
    · exact h.required q name r hr
  distinctPlaces := nodup_insert h.distinctPlaces _ _
  distinctNames q := by
    rw [σ.entry_update]
    split
    · exact hnames _ (h.distinctNames _)
    · exact h.distinctNames q

end Sound

/-- **Every step enters only what is right**, if tests are left out. -/
theorem Sound.step (htests : scope.tests = false) (hstep : Step s scope σ τ)
    (h : Sound s scope σ) : Sound s scope τ := by
  cases hstep with
  | noted | top | data | listed =>
    exact ⟨h.holds, h.source, h.required, h.distinctPlaces, h.distinctNames⟩
  | claimed hm => exact h.claimed hm
  | reached hm =>
    have hclaimed := h.claimed hm
    exact ⟨hclaimed.holds, hclaimed.source, hclaimed.required, hclaimed.distinctPlaces,
      hclaimed.distinctNames⟩
  | source hm hfile =>
    refine h.update hm (fun e x hx => .inr ?_) (fun e name r hr => .inl hr) fun e h => h
    cases hx
    exact hashFile_file hfile
  | page hm => exact h.update hm (fun e x hx => .inl hx) (fun e name r hr => .inl hr) fun e h => h
  | required hm hasks hstands =>
    refine h.update hm (fun e x hx => .inl hx) ?_ fun e h => nodup_insert h _ _
    intro e n r hr
    rw [get?_insert] at hr
    grind
  | finder hwanted => exact absurd hwanted (by simp [htests])
  | test hm => exact absurd hm.1 (by simp [htests])

/-! ## What is complete -/

theorem contains_of_require {p : Place} {r : Requirement}
    (hrun : Runs (require_ p name r) σ (.ok ()) τ) : contains (τ.entry p).requirements name := by
  obtain ⟨-, rfl⟩ := runs_updateEntry_iff.1 hrun
  rw [Manifest.entry_update, if_pos rfl, contains, get?_insert, if_pos rfl]
  rfl

/-- Nothing stands for a missing name that is ignored, and the name itself for any other. -/
theorem settled_of_handleMissing {lookedIn : List String} (hfree : isProvided name = false)
    (hmeans : Means s m name line none)
    (hrun : Runs (handleMissing s m name line lookedIn) σ (.ok ()) τ) :
    Settled s τ m name line := by
  unfold handleMissing at hrun
  split at hrun
  · rename_i hignored
    exact .inr (.ignored hfree hmeans (by simpa using hignored))
  · rename_i hkept
    rw [Bool.or_eq_true, decide_eq_true_eq, not_or, Bool.not_eq_true] at hkept
    split at hrun
    · obtain ⟨_, ρ, -, hrun⟩ := runs_bind_ok_iff.1 hrun
      refine .inl ⟨_, .missing hfree hmeans hkept.1 hkept.2, contains_of_require hrun, ?_⟩
      intro other _ hother
      cases hmeans.unique hother
    · cases (runs_throw_iff.1 hrun).1

theorem settled_of_settle {reach : Module → Linking Unit} (hreach : Obeys s scope Followed reach)
    (hm : Met s scope m) {required : Requirements} (hasked : asked? s m.file = some required)
    (hline : get? required name = some line)
    (hrun : Runs (settle s reach m required name) σ (.ok ()) τ) : Settled s τ m name line := by
  unfold settle at hrun
  cases hfree : isProvided name with
  | true =>
    rw [hfree, if_pos rfl] at hrun
    refine .inl ⟨_, .provided hfree, contains_of_require hrun, fun other hother => ?_⟩
    rw [hfree] at hother
    cases hother
  | false =>
    simp only [hfree, hline, Option.getD_some, Bool.false_eq_true, if_false] at hrun
    obtain ⟨⟨found, lookedIn⟩, ρ, hsearch, hrun⟩ := runs_bind_ok_iff.1 hrun
    obtain ⟨trail, hfound, -⟩ := runs_runSearch_ok hsearch
    have hmeans : Means s m name line found := ⟨trail, hfound⟩
    cases found with
    | none => exact settled_of_handleMissing hfree hmeans hrun
    | some other =>
      obtain ⟨_, ρ', hreached, hrun⟩ := runs_bind_ok_iff.1 hrun
      have hmet : Met s scope other := .asked hm ⟨required, hasked, hline⟩ hfree hmeans
      refine .inl ⟨_, .found hfree hmeans, contains_of_require hrun, fun other' _ hother => ?_⟩
      cases hmeans.unique hother
      rw [(runs_updateEntry_iff.1 hrun).2]
      exact (hreach other hmet _ _ _ hreached).2.1 rfl

/-- A part of linking that is done with every module which it follows. -/
def Finishes (s : Setting) (σ τ : Manifest) : Prop := ∀ m ∈ τ.followed, m ∈ σ.followed ∨ Done s τ m

theorem Plan.finishes {C : Module → Manifest → Prop} {call : Module → Linking Unit} {α : Type}
    {x : (Module → Linking Unit) → Linking α} (h : Plan s scope C σ x)
    (hobeys : Obeys s scope C call)
    (hcall : ∀ m, Met s scope m → ∀ σ τ, Runs (call m) σ (.ok ()) τ → Finishes s σ τ) {a : α}
    (hrun : Runs (x call) σ (.ok a) τ) : Finishes s σ τ := by
  induction h generalizing τ with
  | perform =>
    obtain ⟨-, rfl⟩ := runs_perform_ok_iff.1 hrun
    exact fun _ => .inl
  | act _ hstill =>
    obtain ⟨-, rfl⟩ := runs_modify_iff.1 hrun
    exact fun m hm => .inl (hstill ▸ hm)
  | call hm => exact hcall _ hm _ _ hrun
  | bind hx hf ihx ihf =>
    obtain ⟨a, ρ, hfirst, hrest⟩ := runs_bind_ok_iff.1 hrun
    have hgrows := ((hf call a ρ hobeys hfirst).runs hobeys hrest).1.grows
    intro m hm
    rcases ihf call a ρ hobeys hfirst hrest m hm with hm | hm
    · exact (ihx hfirst m hm).imp_right fun hdone => hdone.mono hgrows
    · exact .inr hm

/-- **Following a module links it and all that it asks for**, at any depth that suffices. -/
theorem follow_finishes (depth : Nat) (hm : Met s scope m)
    (hrun : Runs (follow s depth m) σ (.ok ()) τ) : Done s τ m ∧ Finishes s σ τ := by
  induction depth generalizing m σ τ with
  | zero => cases (runs_throw_iff.1 hrun).1
  | succ depth ih =>
    have hobeys := obeys_reach (obeys_follow s scope depth)
    have hreach : ∀ m, Met s scope m → ∀ σ τ, Runs (reach (follow s depth) m) σ (.ok ()) τ →
        Finishes s σ τ := by
      intro m hm σ τ hrun
      rw [runs_reach_iff] at hrun
      split at hrun
      · obtain ⟨-, rfl⟩ := hrun
        exact fun _ => .inl
      · obtain ⟨hdone, hmore⟩ := ih hm hrun
        intro m' hm'
        rcases hmore m' hm' with hm' | hm'
        · rcases List.mem_append.1 hm' with hm' | hm'
          · exact .inl hm'
          · exact .inr (List.mem_singleton.1 hm' ▸ hdone)
        · exact .inr hm'
    refine ⟨?_, (plan_linkModule hm).finishes hobeys hreach hrun⟩
    obtain ⟨required, ρ, hasked, henter, hrest, hgrows⟩ := runs_linkModule hobeys hm hrun
    obtain ⟨hholds, hsource, -⟩ := runs_enterFiles henter
    refine ⟨hgrows.holds _ hholds, hgrows.source _ hsource, ?_⟩
    rintro name line ⟨required', hasked', hline⟩
    cases hasked.symm.trans hasked'
    obtain ⟨ρ₁, ρ₂, hturn, hsteps⟩ := Plan.exists_turn_of_forM
      (fun _ hname => plan_settle hm hasked hname) hobeys hrest
      (mem_sortedStrings_keys.2 ⟨line, hline⟩)
    exact (settled_of_settle hobeys hm hasked hline hturn).mono hsteps.grows

end AddonBuilder.Linker
