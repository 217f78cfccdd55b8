import AddonBuilder.Proofs.Application.Installing

/-!
# What a run leaves in a profile

A profile that was there before is to be left as it was.
-/

namespace AddonBuilder.Application

open Session List FileTree Profile
open Files (Grows)
open AddonBuilder.Path (IsName Bare below)

/-! ## Settings -/

section Settings

variable {p : Profile} {s s' : Session} {d : Location}

theorem write_settings (hprofile : s.files.Reaches p.dir d) {node : Node}
    (h : outcome (change fun f => f.write? p.settingsFile node) s = (.ok (), s')) :
    GrowsAt (d ++ ["user.js"]) s s' := by
  obtain ⟨files, hwrite, rfl⟩ := outcome_change_ok_iff.1 h
  obtain ⟨l, hl, -, -, hfile, rfl⟩ := Files.exists_of_write? hwrite
  rw [settingsFile, hprofile.locate?_join (by decide)] at hl
  obtain rfl := Option.some.inj hl
  exact ⟨rfl, .put prefix_rfl (by simp) hfile _⟩

theorem addSettings_grows (hprofile : s.files.Reaches p.dir d) {given : Settings}
    (h : outcome (p.addSettings given) s = (.ok (), s')) : GrowsAt (d ++ ["user.js"]) s s' := by
  unfold addSettings at h
  rw [outcome_bind_ok outcome_currentFiles] at h
  obtain ⟨⟨⟩, s₁, hfirst, hblock⟩ := outcome_bind_ok_iff.1 h
  have h₁ := write_settings hprofile hfirst
  split at hblock
  · cases hblock
  · obtain ⟨bytes, s₂, hdemand, hsecond⟩ := outcome_bind_ok_iff.1 hblock
    obtain ⟨-, rfl⟩ := outcome_demand_ok_iff.1 hdemand
    exact h₁.trans (write_settings (hprofile.grows h₁.files) hsecond)

theorem dropSettings_grows (hprofile : s.files.Reaches p.dir d) {b : Bool}
    (h : outcome p.dropSettings s = (.ok b, s')) : GrowsAt (d ++ ["user.js"]) s s' := by
  unfold dropSettings readString at h
  obtain ⟨text, s₁, hread, hlines⟩ := outcome_bind_ok_iff.1 h
  obtain ⟨bytes, s₂, hbytes, hdecode⟩ := outcome_bind_ok_iff.1 hread
  obtain ⟨-, rfl⟩ := outcome_demand_ok_iff.1 hbytes
  rw [outcome_bind_ok outcome_get] at hdecode hlines
  obtain ⟨-, rfl⟩ := outcome_demand_ok_iff.1 hdecode
  obtain ⟨rest, s₃, hblock, hwrite⟩ := outcome_bind_ok_iff.1 hlines
  obtain ⟨-, rfl⟩ := outcome_ofExcept_ok_iff.1 hblock
  cases rest with
  | none =>
    cases hwrite
    exact .refl _ _
  | some rest =>
    obtain ⟨⟨⟩, s₄, hfull, hend⟩ := outcome_bind_ok_iff.1 hwrite
    cases hend
    exact write_settings hprofile hfull

theorem dropBlocks_grows (hprofile : s.files.Reaches p.dir d) {k : Nat}
    (h : outcome (p.dropBlocks k) s = (.ok (), s')) : GrowsAt (d ++ ["user.js"]) s s' := by
  induction k generalizing s with
  | zero =>
    cases h
    exact .refl _ _
  | succ k ih =>
    obtain ⟨b, s₁, hdrop, hrest⟩ := outcome_bind_ok_iff.1 h
    have h₁ := dropSettings_grows hprofile hdrop
    cases b with
    | true => exact h₁.trans (ih (hprofile.grows h₁.files) hrest)
    | false =>
      cases hrest
      exact h₁

end Settings

/-! ## Removal -/

theorem place_prefix_iff {d : Location} {id n : String} {way : Location} :
    extensionsAt d ++ [id] <+: extensionsAt d ++ n :: way ↔ id = n := by
  rw [prefix_append_right_inj, cons_prefix_cons]
  simp

section Removal

variable {s₀ s s' : Session} {p : Profile} {d : Location} {addons : List String}
  (hready : Ready s₀ p.dir d addons)

/-- Every directory of the start is still there, and what is to be removed is a directory or gone. -/
structure Removable (s₀ : Session) (d : Location) (ids : List String) (s : Session) : Prop where
  here : s.files.here = s₀.files.here
  dirs : ∀ l, s₀.files.tree.isDir l = true → s.files.tree.isDir l = true
  extensions : ids ≠ [] → s.files.tree.isDir (extensionsAt d) = true
  ids : ∀ id ∈ ids, IsName id ∧ s₀.files.tree.get? (extensionsAt d ++ [id]) = none ∧
    (s.files.tree.isDir (extensionsAt d ++ [id]) = true ∨
      ∀ way, s.files.tree.get? (extensionsAt d ++ id :: way) = none)

namespace Removable

variable {id : String} {ids : List String}

include hready

theorem locate?_place (h : Removable s₀ d (id :: ids) s) :
    s.files.tree.locate? s.files.here (Path.join (Path.join p.dir "extensions") id) =
      some (extensionsAt d ++ [id]) := by
  have hlocate : s.files.tree.locate? s.files.here p.dir = some d := by
    rw [h.here]
    exact locate?_mono h.dirs hready.profile.1
  have hprofile : s.files.Reaches p.dir d := ⟨hlocate, h.dirs d hready.profile.2⟩
  have hextensions : s.files.Reaches (Path.join p.dir "extensions") (extensionsAt d) :=
    ⟨hprofile.locate?_join (by decide), h.extensions (by simp)⟩
  exact hextensions.locate?_join (h.ids id mem_cons_self).1

/-- Whether there was something to remove or not, nothing is left at the place. -/
theorem get?_removeDir? (h : Removable s₀ d (id :: ids) s)
    (hs' : s' = { s with files := (s.files.removeDir?
      (Path.join (Path.join p.dir "extensions") id)).getD s.files }) :
    s'.files.here = s.files.here ∧ ∀ l, s'.files.tree.get? l =
      if extensionsAt d ++ [id] <+: l then none else s.files.tree.get? l := by
  subst hs'
  dsimp only [Files.removeDir?]
  rw [locate?_place hready h, Option.bind_eq_bind, Option.bind_some]
  cases hdir : s.files.tree.isDir (extensionsAt d ++ [id]) with
  | true =>
    rw [if_neg (by simp)]
    exact ⟨rfl, get?_removeAll (by simp)⟩
  | false =>
    rw [if_pos (by simp)]
    refine ⟨rfl, fun l => ?_⟩
    split
    · rename_i hl
      obtain ⟨way, rfl⟩ := hl
      rw [append_assoc, singleton_append]
      exact (h.ids id mem_cons_self).2.2.resolve_left (by simp [hdir]) way
    · rfl

theorem step (h : Removable s₀ d (id :: ids) s) (hhere : s'.files.here = s.files.here)
    (hget : ∀ l, s'.files.tree.get? l =
      if extensionsAt d ++ [id] <+: l then none else s.files.tree.get? l) :
    Removable s₀ d ids s' := by
  have hkeep : ∀ l, ¬ extensionsAt d ++ [id] <+: l → s'.files.tree.get? l = s.files.tree.get? l :=
    fun l hl => by rw [hget, if_neg hl]
  refine ⟨hhere.trans h.here, fun l hl => ?_, fun _ => ?_, fun id' hid' => ?_⟩
  · rw [isDir, hkeep l, ← isDir, h.dirs l hl]
    rintro ⟨way, rfl⟩
    have hnone := hready.sound.get?_append_eq_none (h.ids id mem_cons_self).2.1 way
    rw [isDir_iff, hnone] at hl
    cases hl
  · rw [isDir, hkeep _, ← isDir, h.extensions (by simp)]
    intro hprefix
    have hlen := hprefix.length_le
    rw [length_append, length_singleton] at hlen
    omega
  · obtain ⟨hname, hfree, hplace⟩ := h.ids id' (mem_cons_of_mem _ hid')
    refine ⟨hname, hfree, ?_⟩
    by_cases hsame : id = id'
    · subst hsame
      exact .inr fun way => by rw [hget, if_pos (place_prefix_iff.2 rfl)]
    · have hkeep' := fun way => hkeep (extensionsAt d ++ id' :: way) (mt place_prefix_iff.1 hsame)
      refine hplace.imp (fun hdir => ?_) fun hnone way => (hkeep' way).trans (hnone way)
      rw [isDir_iff] at hdir ⊢
      exact (hkeep' []).trans hdir

end Removable

include hready in
/-- **What was unpacked is removed, and nothing else is.** -/
theorem removals_run {ids : List String} (h : Removable s₀ d ids s)
    (hremove : outcome ((ids.map (Path.join (Path.join p.dir "extensions"))).forM fun path =>
        modify fun s => { s with files := (s.files.removeDir? path).getD s.files }) s =
      (.ok (), s')) :
    ∀ n way, s'.files.tree.get? (extensionsAt d ++ n :: way) =
      if n ∈ ids then none else s.files.tree.get? (extensionsAt d ++ n :: way) := by
  induction ids generalizing s with
  | nil =>
    cases hremove
    simp
  | cons id ids ih =>
    obtain ⟨s₁, hone, hrest⟩ := outcome_forM_cons_ok_iff.1 hremove
    rw [outcome_modify] at hone
    obtain ⟨hhere, hget⟩ := Removable.get?_removeDir? hready h (Prod.mk.inj hone).2.symm
    intro n way
    rw [ih (h.step hready hhere hget) hrest, hget]
    by_cases hsame : id = n
    · simp [hsame]
    · have hne : n ≠ id := fun heq => hsame heq.symm
      rw [if_neg (mt place_prefix_iff.1 hsame)]
      simp [hne]

end Removal

/-! ## A whole run -/

theorem create_cases {own given : Settings} {dir : String} (hdir : dir.isEmpty = false)
    {addons : List String} {s s' : Session} {p : Profile}
    (h : outcome (create own (some dir) addons given) s = (.ok p, s')) :
    p.dir = dir ∧ p.isNew = false ∧ ∃ s₁,
      outcome (addons.forM p.install)
        { s with unpacked := Assoc.insert s.unpacked p.dir [] } = (.ok (), s₁) ∧
      outcome (p.addSettings p.settings) s₁ = (.ok (), s') := by
  have hfilter : (some dir).filter (fun d => decide (d ≠ "")) = some dir := by
    rw [Option.filter_some, if_pos]
    refine decide_eq_true ?_
    rintro rfl
    cases hdir
  unfold create at h
  rw [hfilter] at h
  dsimp only at h
  rw [outcome_bind_ok (outcome_pure _), outcome_bind_ok (outcome_modify _)] at h
  obtain ⟨⟨⟩, s₁, hinstall, hsettings⟩ := outcome_bind_ok_iff.1 h
  obtain ⟨⟨⟩, s₂, hadd, hend⟩ := outcome_bind_ok_iff.1 hsettings
  rw [outcome_pure] at hend
  grind

/-- Cleaning takes the settings away, and then removes what is noted. -/
theorem clean_cases {s s' : Session} {p : Profile} (hnew : p.isNew = false)
    (h : outcome p.clean s = (.ok (), s')) :
    ∃ s₁ k, outcome (p.dropBlocks k) s = (.ok (), s₁) ∧
      outcome (((Assoc.get? s₁.unpacked p.dir).getD []).forM fun path =>
        modify fun s => { s with files := (s.files.removeDir? path).getD s.files }) s₁ =
        (.ok (), s') := by
  unfold clean at h
  rw [hnew, if_neg (by simp)] at h
  obtain ⟨⟨⟩, s₁, hdrop, hremove⟩ := outcome_bind_ok_iff.1 h
  obtain ⟨bytes, s₂, hread, hblocks⟩ := outcome_bind_ok_iff.1 hdrop
  obtain ⟨-, rfl⟩ := outcome_demand_ok_iff.1 hread
  exact ⟨s₁, _, hblocks, hremove⟩

section Leftovers

variable {s₀ s s₁ s₂ : Session} {p : Profile} {d : Location} {addons : List String}
  {done : List Addon}

theorem installed_nil (s : Session) (dir : String) (d : Location) (addons : List String) :
    Installed s dir d addons [] { s with unpacked := Assoc.insert s.unpacked dir [] } :=
  ⟨.refl _ _, .inr ⟨rfl, rfl⟩, by simp, fun _ _ _ => rfl, by simp, by simp, [], by
    simp [Assoc.get?_insert], by simp⟩

/-- What was noted can be removed, and settings that come and go beside the extensions change nothing
about that. -/
theorem Installed.removable (hready : Ready s₀ p.dir d addons)
    (h : Installed s₀ p.dir d addons done s) (hsettings : Grows (d ++ ["user.js"]) s.files s₁.files)
    {ids : List String} (hids : ∀ id, id ∈ ids ↔ ∃ a ∈ done, a.isUnpacked ∧ a.id = id) :
    Removable s₀ d ids s₁ := by
  refine ⟨hsettings.here.trans h.grows.here, fun l hl =>
    hsettings.dirs l (h.grows.dirs l hl), fun hne => ?_, fun id hid => ?_⟩
  · refine hsettings.dirs _ (h.made.resolve_right ?_)
    rintro ⟨rfl, -⟩
    obtain ⟨id, hid⟩ := exists_mem_of_ne_nil ids hne
    obtain ⟨a, ha, -⟩ := (hids id).1 hid
    cases ha
  · obtain ⟨a, ha, hunpacked, rfl⟩ := (hids id).1 hid
    have hoffer := h.offered a ha
    rw [← Addon.place_of_isUnpacked hunpacked]
    exact ⟨Addon.place_of_isUnpacked hunpacked ▸ hready.ids a hoffer, hready.free a hoffer,
      .inl (hsettings.dirs _ (h.unpacked a ha hunpacked))⟩

/-- **Cleaning empties the places of unpacked add-ons.** -/
theorem clean_removes (hready : Ready s₀ p.dir d addons)
    (h : Installed s₀ p.dir d addons done s) (hadded : GrowsAt (d ++ ["user.js"]) s s₁)
    (hnew : p.isNew = false) (hclean : outcome p.clean s₁ = (.ok (), s₂)) (n : String)
    (way : Location) :
    s₂.files.tree.get? (extensionsAt d ++ n :: way) =
      if ∃ a ∈ done, a.isUnpacked ∧ a.place = n then none
      else s.files.tree.get? (extensionsAt d ++ n :: way) := by
  obtain ⟨s₃, k, hdrop, hremove⟩ := clean_cases hnew hclean
  have hprofile := (hready.profile.grows h.grows).grows hadded.files
  have hsettings := hadded.trans (dropBlocks_grows hprofile hdrop)
  -- Settings come and go beside the extensions.
  have hbeside : s₃.files.tree.get? (extensionsAt d ++ n :: way) =
      s.files.tree.get? (extensionsAt d ++ n :: way) := by
    refine hsettings.files.others _ fun hprefix => ?_
    rw [extensionsAt, append_assoc, prefix_append_right_inj] at hprefix
    exact absurd (cons_prefix_cons.1 hprefix).1 (by decide)
  obtain ⟨ids, hids, hmem⟩ := h.noted
  have hnoted : Assoc.get? s₃.unpacked p.dir = Assoc.get? s.unpacked p.dir := by
    rw [hsettings.session]
  rw [hnoted, hids, Option.getD_some] at hremove
  rw [removals_run hready (h.removable hready hsettings.files hmem) hremove, hbeside]
  refine if_congr ?_ rfl rfl
  rw [hmem]
  refine exists_congr fun a => and_congr_right fun _ => and_congr_right fun hunpacked => ?_
  rw [Addon.place_of_isUnpacked hunpacked]

end Leftovers

/-- **What a run leaves among the extensions.**  Where an add-on was unpacked, or none went, everything is as
before.  Elsewhere an add-on stays: an archive that was not to be unpacked, or the copy of a
directory.  So the extensions are as before exactly if everything went where an add-on was unpacked. -/
theorem clean_leaves {own given : Settings} {dir : String} {d : Location} {addons : List String}
    {s s₁ s₂ : Session} {p : Profile} (hready : Ready s dir d addons)
    (hcreate : outcome (Profile.create own (some dir) addons given) s = (.ok p, s₁))
    (hclean : outcome p.clean s₁ = (.ok (), s₂)) :
    (∀ n, (∀ a, Offers s.files addons a → a.place = n →
        ∃ b, Offers s.files addons b ∧ b.place = n ∧ b.isUnpacked = true) →
      ∀ way, s₂.files.tree.get? (extensionsAt d ++ n :: way) =
        s.files.tree.get? (extensionsAt d ++ n :: way)) ∧
    (∀ n, (∃ a, Offers s.files addons a ∧ a.place = n) →
      (∀ a, Offers s.files addons a → a.place = n → a.isUnpacked = false) →
      ∃ a, Offers s.files addons a ∧ a.place = n ∧ ∀ way,
        s₂.files.tree.get? (extensionsAt d ++ n :: way) = a.copy s.files.tree way) ∧
    ((∀ way, way ≠ [] → s₂.files.tree.get? (extensionsAt d ++ way) =
        s.files.tree.get? (extensionsAt d ++ way)) ↔
      ∀ a, Offers s.files addons a →
        ∃ b, Offers s.files addons b ∧ b.place = a.place ∧ b.isUnpacked = true) := by
  obtain ⟨rfl, hnew, s₃, hinstall, hadd⟩ :=
    create_cases (FileTree.isEmpty_of_locate? hready.profile.1) hcreate
  obtain ⟨done, hdone, hall⟩ :=
    installs_run hready (fun _ => id) (installed_nil s p.dir d addons) hinstall
  have hoffers : ∀ a, a ∈ done ↔ Offers s.files addons a := fun a =>
    ⟨hdone.offered a, fun ha => hall a (.inr ha)⟩
  have hleft := clean_removes hready hdone
    (addSettings_grows (hready.profile.grows hdone.grows) hadd) hnew hclean
  have hsame : ∀ n, (∀ a, Offers s.files addons a → a.place = n →
        ∃ b, Offers s.files addons b ∧ b.place = n ∧ b.isUnpacked = true) →
      ∀ way, s₂.files.tree.get? (extensionsAt d ++ n :: way) =
        s.files.tree.get? (extensionsAt d ++ n :: way) := by
    intro n hn way
    rw [hleft]
    split
    · rename_i hunpacked
      obtain ⟨a, ha, -, rfl⟩ := hunpacked
      have hnone := hready.sound.get?_append_eq_none (hready.free a (hdone.offered a ha)) way
      rw [List.append_assoc, List.singleton_append] at hnone
      exact hnone.symm
    · rename_i hpacked
      refine hdone.untouched n (fun a ha han => hpacked ?_) way
      obtain ⟨b, hb, hbn, hunpacked⟩ := hn a (hdone.offered a ha) han
      exact ⟨b, (hoffers b).2 hb, hunpacked, hbn⟩
  have hkept : ∀ n, (∃ a, Offers s.files addons a ∧ a.place = n) →
      (∀ a, Offers s.files addons a → a.place = n → a.isUnpacked = false) →
      ∃ a, Offers s.files addons a ∧ a.place = n ∧ ∀ way,
        s₂.files.tree.get? (extensionsAt d ++ n :: way) = a.copy s.files.tree way := by
    rintro n ⟨a, ha, han⟩ hn
    obtain ⟨b, hb, hbn, hcopy⟩ := hdone.kept n ⟨a, (hoffers a).2 ha, han⟩ fun c hc =>
      hn c (hdone.offered c hc)
    refine ⟨b, hdone.offered b hb, hbn, fun way => ?_⟩
    rw [hleft, if_neg, hcopy]
    rintro ⟨c, hc, hunpacked, hcn⟩
    rw [hn c (hdone.offered c hc) hcn] at hunpacked
    cases hunpacked
  refine ⟨hsame, hkept, fun hall a ha => ?_, fun hall way hway => ?_⟩
  · by_contra hnone
    push Not at hnone
    have hkeep : ∀ b, Offers s.files addons b → b.place = a.place → b.isUnpacked = false :=
      fun b hb hba => by simpa using hnone b hb hba
    obtain ⟨b, hb, hba, hcopy⟩ := hkept a.place ⟨a, ha, rfl⟩ hkeep
    have hsome := Addon.copy_nil_isSome s.files.tree (hkeep b hb hba)
    rw [← hcopy [], hall _ (by simp), hready.free a ha] at hsome
    cases hsome
  · obtain ⟨n, rest, rfl⟩ := List.exists_cons_of_ne_nil hway
    exact hsame n (fun a ha han => han ▸ hall a ha) rest

def shortDescription (id unpack : String) : Bytes :=
  Codec.utf8OfString ("<R><Description><id>" ++ id ++ "</id><unpack>" ++ unpack ++
    "</unpack></Description></R>")

/-- An extension that is nothing but its description. -/
def shortArchive (id unpack : String) : Archive := [⟨"install.rdf", shortDescription id unpack, none⟩]

/-- An empty profile and two archives, of which one is to be unpacked. -/
def twoArchives : Session where
  platform := "linux2"
  files.tree := [(["p"], .dir), (["a.xpi"], .archive (shortArchive "a" "false")),
    (["b.xpi"], .archive (shortArchive "b" "true"))]

def idleRun (addons : List String) : Command Unit := do
  let p ← create [] (some "/p") addons []
  p.clean

theorem offers_twoArchives (a : Addon) :
    Offers twoArchives.files ["/a.xpi", "/b.xpi"] a ↔
      a = ⟨"a", .packed (shortArchive "a" "false")⟩ ∨
        a = ⟨"b", .unpacked (shortArchive "b" "true")⟩ := by
  have hpaths : addonPaths twoArchives.files "/a.xpi" = ["/a.xpi"] ∧
      addonPaths twoArchives.files "/b.xpi" = ["/b.xpi"] := by decide
  have haddons : addonAt? twoArchives.files "/a.xpi" =
        some ⟨"a", .packed (shortArchive "a" "false")⟩ ∧
      addonAt? twoArchives.files "/b.xpi" =
        some ⟨"b", .unpacked (shortArchive "b" "true")⟩ := by decide +kernel
  simp [Offers, hpaths, haddons, eq_comm]

theorem ready_twoArchives : Ready twoArchives "/p" ["p"] ["/a.xpi", "/b.xpi"] where
  sound := by decide
  named := by decide
  here := by simp [twoArchives]
  profile := ⟨by decide, by decide⟩
  extensions := by
    have hnone : twoArchives.files.tree.get? (extensionsAt ["p"]) = none := by decide
    simp [hnone]
  given := by
    have ha : Source twoArchives ["p"] "/a.xpi" ["a.xpi"] := ⟨by decide, by decide, by decide⟩
    have hb : Source twoArchives ["p"] "/b.xpi" ["b.xpi"] := ⟨by decide, by decide, by decide⟩
    simpa using ⟨⟨_, ha⟩, _, hb⟩
  ids := by
    intro a ha
    rcases (offers_twoArchives a).1 ha with rfl | rfl <;> decide
  free := by
    intro a ha
    rcases (offers_twoArchives a).1 ha with rfl | rfl <;> decide
  entries := by
    intro a archive ha hform e he
    rcases (offers_twoArchives a).1 ha with rfl | rfl
    · cases hform
    · cases hform
      obtain rfl := mem_singleton.1 he
      exact ⟨"install.rdf", [], by decide, by simp, .inl rfl⟩

theorem idleRun_twoArchives : ∃ p s₁ s₂,
    outcome (create [] (some "/p") ["/a.xpi", "/b.xpi"] []) twoArchives = (.ok p, s₁) ∧
      outcome p.clean s₁ = (.ok (), s₂) ∧
      (s₂.files.tree.get? (extensionsAt ["p"] ++ ["a.xpi"])).isSome := by
  have hrun : ∃ s₂, outcome (idleRun ["/a.xpi", "/b.xpi"]) twoArchives = (.ok (), s₂) ∧
      (s₂.files.tree.get? (extensionsAt ["p"] ++ ["a.xpi"])).isSome := by
    have hends : (outcome (idleRun ["/a.xpi", "/b.xpi"]) twoArchives).1.toOption = some () ∧
        ((outcome (idleRun ["/a.xpi", "/b.xpi"]) twoArchives).2.files.tree.get?
          (extensionsAt ["p"] ++ ["a.xpi"])).isSome := by decide +kernel
    generalize outcome (idleRun ["/a.xpi", "/b.xpi"]) twoArchives = result at hends
    obtain ⟨_ | _, s₂⟩ := result
    · cases hends.1
    · exact ⟨s₂, rfl, hends.2⟩
  obtain ⟨s₂, hrun, hleft⟩ := hrun
  obtain ⟨p, s₁, hcreate, hclean⟩ := outcome_bind_ok_iff.1 hrun
  exact ⟨p, s₁, s₂, hcreate, hclean, hleft⟩

/-- Of two archives the one that stays packed is left behind. -/
theorem clean_leaves_twoArchives : Ready twoArchives "/p" ["p"] ["/a.xpi", "/b.xpi"] ∧ ∃ p s₁ s₂,
    outcome (Profile.create [] (some "/p") ["/a.xpi", "/b.xpi"] []) twoArchives = (.ok p, s₁) ∧
      outcome p.clean s₁ = (.ok (), s₂) ∧
      s₂.files.tree.get? ["p", "extensions", "a.xpi"] = some (.archive (shortArchive "a" "false")) ∧
      s₂.files.tree.get? ["p", "extensions", "b"] = none := by
  obtain ⟨p, s₁, s₂, hcreate, hclean, -⟩ := idleRun_twoArchives
  obtain ⟨hsame, hkept, -⟩ := clean_leaves ready_twoArchives hcreate hclean
  have ha := (offers_twoArchives _).2 (.inl rfl)
  have hb := (offers_twoArchives _).2 (.inr rfl)
  refine ⟨ready_twoArchives, p, s₁, s₂, hcreate, hclean, ?_, ?_⟩
  · obtain ⟨a, hoffer, hplace, hcopy⟩ := hkept "a.xpi" ⟨_, ha, rfl⟩ fun a hoffer hplace => by
      rcases (offers_twoArchives a).1 hoffer with rfl | rfl
      · rfl
      · exact absurd hplace (by decide)
    rcases (offers_twoArchives a).1 hoffer with rfl | rfl
    · exact hcopy []
    · exact absurd hplace (by decide)
  · refine (hsame "b" (fun a _ _ => ⟨_, hb, rfl, rfl⟩) []).trans ?_
    decide

/-- An extension that stays packed under its own name is not removed again. -/
theorem not_left_as_found :
    ¬ ∀ (s s₁ s₂ : Session) (p : Profile) (own given : Settings) (dir : String) (d : Location)
      (addons : List String), Ready s dir d addons →
      outcome (Profile.create own (some dir) addons given) s = (.ok p, s₁) →
      outcome p.clean s₁ = (.ok (), s₂) →
      ∀ way, way ≠ [] → s₂.files.tree.get? (extensionsAt d ++ way) =
        s.files.tree.get? (extensionsAt d ++ way) := by
  intro hall
  obtain ⟨p, s₁, s₂, hcreate, hclean, hleft⟩ := idleRun_twoArchives
  have hbefore : twoArchives.files.tree.get? (extensionsAt ["p"] ++ ["a.xpi"]) = none := by
    decide
  rw [hall _ _ _ _ _ _ _ _ _ ready_twoArchives hcreate hclean ["a.xpi"] (by simp), hbefore] at hleft
  cases hleft

end AddonBuilder.Application
