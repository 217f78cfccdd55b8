import AddonBuilder.Package.Dependencies

/-!
# What the targets need

A name is **needed** if it is a target or a known package that is needed lists it.
-/

namespace AddonBuilder.Package

open Json Assoc List

/-- A known package lists a value as a dependency. -/
def Lists (pkgs : Packages) (pkg : Text) (v : Value) : Prop :=
  ∃ cfg listed, get? pkgs pkg = some cfg ∧ dependencies cfg = .ok listed ∧ v ∈ listed

/-- The names that can be reached from the targets. -/
inductive Needed (pkgs : Packages) (targets : List Text) : Text → Prop
  | target {name : Text} (h : name ∈ targets) : Needed pkgs targets name
  | listed {pkg name : Text} (hpkg : Needed pkgs targets pkg)
      (h : Lists pkgs pkg (.text name)) : Needed pkgs targets name

/-- A package is known, and what it lists can be read and are names. -/
def ListsNames (pkgs : Packages) (pkg : Text) : Prop :=
  ∃ cfg listed, get? pkgs pkg = some cfg ∧ dependencies cfg = .ok listed ∧
    ∀ v ∈ listed, ∃ name, v = .text name

/-- Why a value is noted: it is a target, or a needed package lists it. -/
def Reason (pkgs : Packages) (targets : List Text) : Note → Prop
  | (v, none) => ∃ name ∈ targets, v = .text name
  | (v, some pkg) => Needed pkgs targets pkg ∧ Lists pkgs pkg v

/-- What holds of the names met on the way. -/
structure Walk (pkgs : Packages) (targets met : List Text) (notes : List Note) : Prop where
  nodup : met.Nodup
  needed : ∀ name ∈ met, Needed pkgs targets name
  read : ∀ name ∈ met, ∃ cfg listed, get? pkgs name = some cfg ∧ dependencies cfg = .ok listed
  reason : ∀ note ∈ notes, Reason pkgs targets note
  targets : ∀ name ∈ targets, name ∈ met ∨ ∃ by_, (Value.text name, by_) ∈ notes
  closed : ∀ pkg ∈ met, ∀ v, Lists pkgs pkg v →
    (∃ name ∈ met, v = .text name) ∨ ∃ by_, (v, by_) ∈ notes

/-- How the walk over the dependencies ends. -/
inductive Ends (pkgs : Packages) (targets : List Text) : Except Fault (List Text) → Prop
  /-- Everything needed has been met, and it lists nothing but names. -/
  | complete {met : List Text} (hnodup : met.Nodup)
      (hmem : ∀ name, name ∈ met ↔ Needed pkgs targets name)
      (hlists : ∀ name ∈ met, ListsNames pkgs name) : Ends pkgs targets (.ok met)
  /-- A noted value is no known package. -/
  | unknown {note : Note} (hreason : Reason pkgs targets note)
      (hnone : ∀ name, note.1 = .text name → get? pkgs name = none) :
      Ends pkgs targets (.error (notKnown note))
  /-- What a needed package lists cannot be read. -/
  | unreadable {name : Text} {cfg : Config} {fault : Fault}
      (hneeded : Needed pkgs targets name) (hcfg : get? pkgs name = some cfg)
      (hfault : dependencies cfg = .error fault) : Ends pkgs targets (.error fault)

variable {pkgs : Packages} {targets met : List Text} {notes : List Note}

theorem Reason.needed {name : Text} {by_ : Option Text}
    (h : Reason pkgs targets (.text name, by_)) : Needed pkgs targets name := by
  cases by_ with
  | none =>
    obtain ⟨target, htarget, heq⟩ := h
    obtain rfl : name = target := by simpa using heq
    exact .target htarget
  | some pkg => exact .listed h.1 h.2

theorem walk_start (pkgs : Packages) (targets : List Text) :
    Walk pkgs targets [] (targets.reverse.map fun t => (.text t, none)) where
  nodup := .nil
  needed := forall_mem_nil _
  read := forall_mem_nil _
  reason := by
    intro note hnote
    obtain ⟨name, hname, rfl⟩ := mem_map.1 hnote
    exact ⟨name, mem_reverse.1 hname, rfl⟩
  targets name hname := .inr ⟨none, mem_map.2 ⟨name, mem_reverse.2 hname, rfl⟩⟩
  closed := forall_mem_nil _

namespace Walk

theorem skip {name : Text} {by_ : Option Text}
    (h : Walk pkgs targets met ((.text name, by_) :: notes)) (hmet : name ∈ met) :
    Walk pkgs targets met notes where
  nodup := h.nodup
  needed := h.needed
  read := h.read
  reason note hnote := h.reason note (mem_cons_of_mem _ hnote)
  targets target htarget := by
    rcases h.targets target htarget with hmem | ⟨by', hmem⟩
    · exact .inl hmem
    · rcases mem_cons.1 hmem with heq | hmem
      · obtain rfl : target = name := by simpa using congrArg Prod.fst heq
        exact .inl hmet
      · exact .inr ⟨by', hmem⟩
  closed pkg hpkg v hv := by
    rcases h.closed pkg hpkg v hv with hname | ⟨by', hmem⟩
    · exact .inl hname
    · rcases mem_cons.1 hmem with heq | hmem
      · exact .inl ⟨name, hmet, congrArg Prod.fst heq⟩
      · exact .inr ⟨by', hmem⟩

theorem meet {name : Text} {by_ : Option Text} {cfg : Config} {listed : List Value}
    (h : Walk pkgs targets met ((.text name, by_) :: notes)) (hnew : name ∉ met)
    (hcfg : get? pkgs name = some cfg) (hlisted : dependencies cfg = .ok listed) :
    Walk pkgs targets (met ++ [name]) (listed.reverse.map (·, some name) ++ notes) := by
  have hneeded : Needed pkgs targets name := (h.reason _ mem_cons_self).needed
  have hlists : ∀ v, Lists pkgs name v ↔ v ∈ listed := by
    intro v
    constructor
    · rintro ⟨cfg', listed', hcfg', hlisted', hv⟩
      grind
    · intro hv
      exact ⟨cfg, listed, hcfg, hlisted, hv⟩
  refine ⟨?_, ?_, ?_, ?_, ?_, ?_⟩
  · rw [nodup_append]
    refine ⟨h.nodup, by simp, ?_⟩
    rintro n hn m hm rfl
    exact hnew (mem_singleton.1 hm ▸ hn)
  · intro n hn
    rcases mem_append.1 hn with hn | hn
    · exact h.needed n hn
    · exact mem_singleton.1 hn ▸ hneeded
  · intro n hn
    rcases mem_append.1 hn with hn | hn
    · exact h.read n hn
    · exact mem_singleton.1 hn ▸ ⟨cfg, listed, hcfg, hlisted⟩
  · intro note hnote
    rcases mem_append.1 hnote with hnote | hnote
    · obtain ⟨v, hv, rfl⟩ := mem_map.1 hnote
      exact ⟨hneeded, (hlists v).2 (mem_reverse.1 hv)⟩
    · exact h.reason note (mem_cons_of_mem _ hnote)
  · intro target htarget
    rcases h.targets target htarget with hmem | ⟨by', hmem⟩
    · exact .inl (mem_append_left _ hmem)
    · grind
  · intro pkg hpkg v hv
    rcases mem_append.1 hpkg with hpkg | hpkg
    · rcases h.closed pkg hpkg v hv with ⟨n, hn, rfl⟩ | ⟨by', hmem⟩
      · exact .inl ⟨n, mem_append_left _ hn, rfl⟩
      · grind
    · obtain rfl := mem_singleton.1 hpkg
      have hmem : (v, some pkg) ∈ listed.reverse.map (·, some pkg) :=
        mem_map.2 ⟨v, mem_reverse.2 ((hlists v).1 hv), rfl⟩
      exact .inr ⟨some pkg, mem_append_left _ hmem⟩

/-- When no notes are left, everything needed has been met. -/
theorem complete (h : Walk pkgs targets met []) : Ends pkgs targets (.ok met) := by
  have hlisted : ∀ pkg ∈ met, ∀ v, Lists pkgs pkg v → ∃ name ∈ met, v = .text name := by
    intro pkg hpkg v hv
    rcases h.closed pkg hpkg v hv with hname | ⟨by_, hmem⟩
    · exact hname
    · cases hmem
  refine .complete h.nodup (fun name => ⟨h.needed name, fun hneeded => ?_⟩) fun name hname => ?_
  · induction hneeded with
    | target htarget =>
      rcases h.targets _ htarget with hmem | ⟨by_, hmem⟩
      · exact hmem
      · cases hmem
    | listed _ hlists ih =>
      grind
  · obtain ⟨cfg, listed, hcfg, hdependencies⟩ := h.read name hname
    refine ⟨cfg, listed, hcfg, hdependencies, fun v hv => ?_⟩
    obtain ⟨text, -, heq⟩ := hlisted name hname v ⟨cfg, listed, hcfg, hdependencies, hv⟩
    exact ⟨text, heq⟩

/-- **How a walk ends.** -/
theorem ends (h : Walk pkgs targets met notes) : Ends pkgs targets (meetAll pkgs met notes) := by
  fun_induction meetAll pkgs met notes with
  | case1 met => exact h.complete
  | case2 met name by_ rest hmet ih => exact ih (h.skip (by simpa using hmet))
  | case3 met name by_ rest hmet hnone =>
    refine .unknown (h.reason _ mem_cons_self) fun name' heq => ?_
    obtain rfl := Value.text.inj heq
    exact hnone
  | case4 met name by_ rest hmet cfg hcfg fault hfault =>
    exact .unreadable (h.reason _ mem_cons_self).needed hcfg hfault
  | case5 met name by_ rest hmet cfg hcfg listed hlisted ih =>
    exact ih (h.meet (by simpa using hmet) hcfg hlisted)
  | case6 met note rest hother =>
    refine .unknown (h.reason _ mem_cons_self) fun name heq => ?_
    exact (hother name note.2 (Prod.ext heq rfl)).elim

end Walk

theorem ends_requiredBy (pkgs : Packages) (targets : List Text) :
    Ends pkgs targets (requiredBy pkgs targets) :=
  (walk_start pkgs targets).ends

theorem ListsNames.contains {pkg : Text} (h : ListsNames pkgs pkg) : contains pkgs pkg := by
  obtain ⟨cfg, -, hcfg, -⟩ := h
  exact contains_of_get? hcfg

theorem Lists.contains {pkg : Text} {v : Value} (h : Lists pkgs pkg v) : contains pkgs pkg := by
  obtain ⟨cfg, -, hcfg, -⟩ := h
  exact contains_of_get? hcfg

/-- Where packages list nothing but names, nothing else is noted. -/
theorem Reason.exists_name {note : Note} (h : Reason pkgs targets note)
    (hlists : ∀ name, Needed pkgs targets name → contains pkgs name →
      ListsNames pkgs name) : ∃ name, note.1 = .text name := by
  obtain ⟨v, by_⟩ := note
  cases by_ with
  | none =>
    obtain ⟨name, -, hname⟩ := h
    exact ⟨name, hname⟩
  | some pkg =>
    obtain ⟨cfg, listed, hcfg, hlisted, hnames⟩ := hlists pkg h.1 h.2.contains
    obtain ⟨cfg', listed', hcfg', hlisted', hv⟩ := h.2
    grind

/-- Where packages list nothing but names, what a needed package lists can be read. -/
theorem Needed.dependencies_ne_error {name : Text} (h : Needed pkgs targets name)
    (hlists : ∀ name, Needed pkgs targets name → contains pkgs name → ListsNames pkgs name)
    {cfg : Config} (hcfg : get? pkgs name = some cfg) (fault : Fault) :
    dependencies cfg ≠ .error fault := by
  obtain ⟨cfg', listed, hcfg', hlisted, -⟩ := hlists name h (contains_of_get? hcfg)
  obtain rfl := Option.some.inj (hcfg.symm.trans hcfg')
  rw [hlisted]
  intro heq
  cases heq

/-- **The packages that the targets need.**  If packages list nothing but names, then the walk meets
every needed name once and nothing else, as long as all needed names are known.  Otherwise it ends at a
needed name that is not known.  A name that is reported as a target is one, and any other is reported
with a known and needed package that lists it.  Where a needed package lists something else, there is a
fault as well. -/
theorem requiredBy_needed (pkgs : Packages) (targets : List Text) :
    ((∀ name, Needed pkgs targets name → Assoc.contains pkgs name = true → ListsNames pkgs name) →
      ((∀ name, Needed pkgs targets name → Assoc.contains pkgs name = true) →
        ∃ met, requiredBy pkgs targets = .ok met ∧ met.Nodup ∧
          ∀ name, name ∈ met ↔ Needed pkgs targets name) ∧
      ((∃ name, Needed pkgs targets name ∧ Assoc.contains pkgs name = false) →
        ∃ name by_, requiredBy pkgs targets = .error (.unknown name by_) ∧
          Needed pkgs targets name ∧ Assoc.contains pkgs name = false ∧
          (by_ = none ∧ name ∈ targets ∧ (Fault.unknown name by_).message? =
              some (name ++ Text.ofString " (specified as target)") ∨
            ∃ pkg, by_ = some pkg ∧ Needed pkgs targets pkg ∧
              Assoc.contains pkgs pkg = true ∧ Lists pkgs pkg (.text name) ∧
              (Fault.unknown name by_).message? =
                some (name ++ (Text.ofString " (required by '" ++ pkg ++ Text.ofString "')"))))) ∧
    ((∃ name, Needed pkgs targets name ∧ Assoc.contains pkgs name = true ∧ ¬ ListsNames pkgs name) →
      ∃ fault, requiredBy pkgs targets = .error fault) := by
  have hends := ends_requiredBy pkgs targets
  generalize requiredBy pkgs targets = r at hends
  refine ⟨fun hlists => ⟨fun hknown => ?_, fun hunknown => ?_⟩, fun hother => ?_⟩
  · cases hends with
    | complete hnodup hmem _ => exact ⟨_, rfl, hnodup, hmem⟩
    | @unknown note hreason hnone =>
      obtain ⟨name, hname⟩ := hreason.exists_name hlists
      obtain ⟨v, by_⟩ := note
      obtain rfl : v = .text name := hname
      have hcontains := hknown name hreason.needed
      rw [Assoc.contains, hnone name rfl] at hcontains
      cases hcontains
    | unreadable hneeded hcfg hfault =>
      exact absurd hfault (hneeded.dependencies_ne_error hlists hcfg _)
  · obtain ⟨missing, hmissing, habsent⟩ := hunknown
    cases hends with
    | complete _ hmem hall =>
      have hcontains := (hall missing ((hmem missing).2 hmissing)).contains
      rw [habsent] at hcontains
      cases hcontains
    | @unknown note hreason hnone =>
      obtain ⟨name, hname⟩ := hreason.exists_name hlists
      obtain ⟨v, by_⟩ := note
      obtain rfl : v = .text name := hname
      have hcontains : Assoc.contains pkgs name = false := by
        rw [Assoc.contains, hnone name rfl]
        rfl
      refine ⟨name, by_, rfl, hreason.needed, hcontains, ?_⟩
      cases by_ with
      | none =>
        obtain ⟨target, htarget, heq⟩ := hreason
        obtain rfl := Value.text.inj heq
        exact .inl ⟨rfl, htarget, rfl⟩
      | some pkg =>
        exact .inr ⟨pkg, rfl, hreason.1, hreason.2.contains, hreason.2, rfl⟩
    | unreadable hneeded hcfg hfault =>
      exact absurd hfault (hneeded.dependencies_ne_error hlists hcfg _)
  · obtain ⟨name, hneeded, -, hnot⟩ := hother
    cases hends with
    | complete _ hmem hall => exact absurd (hall name ((hmem name).2 hneeded)) hnot
    | unknown _ _ => exact ⟨_, rfl⟩
    | unreadable _ _ _ => exact ⟨_, rfl⟩

/-- Two packages that need each other. -/
def circle : Packages :=
  [("a", [("dependencies", .array [.str "b", .str "a"])]),
    ("b", [("dependencies", .array []), ("extra_dependencies", .array [.str "a"])])]

/-- From one package of a circle both are met, and beside it an unknown package is found out. -/
theorem requiredBy_needed_circle :
    (∃ met, requiredBy circle ["a"] = .ok met ∧ met.Nodup ∧
      ∀ name, name ∈ met ↔ Needed circle ["a"] name) ∧
    ∃ name by_, requiredBy circle ["c", "a"] = .error (.unknown name by_) ∧
      Needed circle ["c", "a"] name ∧ Assoc.contains circle name = false := by
  have hkeys : ∀ name, Assoc.contains circle name = true → name = "a" ∨ name = "b" := by
    intro name hname
    have hmem := Assoc.contains_iff.1 hname
    simpa [Assoc.keys, circle] using hmem
  have hlists : ∀ name, Assoc.contains circle name = true → ListsNames circle name := by
    intro name hname
    rcases hkeys name hname with rfl | rfl
    · exact ⟨_, _, rfl, rfl, by simp [Value.str]⟩
    · exact ⟨_, _, rfl, rfl, by simp [Value.str]⟩
  have hknown : ∀ name, Needed circle ["a"] name → Assoc.contains circle name = true := by
    intro name hname
    induction hname with
    | target hname =>
      obtain rfl := List.mem_singleton.1 hname
      decide
    | listed _ hlisted ih =>
      obtain ⟨cfg, listed, hcfg, hdependencies, hmem⟩ := hlisted
      rcases hkeys _ ih with rfl | rfl
      · obtain rfl := Option.some.inj hcfg
        obtain rfl := Except.ok.inj hdependencies
        simp [Value.str] at hmem
        rcases hmem with rfl | rfl <;> decide
      · obtain rfl := Option.some.inj hcfg
        obtain rfl := Except.ok.inj hdependencies
        simp [Value.str] at hmem
        subst hmem
        decide
  have hc : Needed circle ["c", "a"] "c" := .target List.mem_cons_self
  obtain ⟨name, by_, hfault, hneeded, habsent, -⟩ :=
    ((requiredBy_needed circle ["c", "a"]).1 fun name _ => hlists name).2 ⟨_, hc, by decide⟩
  exact ⟨((requiredBy_needed circle ["a"]).1 fun name _ => hlists name).1 hknown,
    name, by_, hfault, hneeded, habsent⟩

end AddonBuilder.Package
