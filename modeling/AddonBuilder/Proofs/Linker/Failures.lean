import AddonBuilder.Proofs.Linker.Causes

/-!
# Why linking fails

Where the main file exists and the dependencies of the packages at hand are known, linking fails in
its own terms, runs out of depth, or has a cause: a description that cannot be used, a file that
cannot be read, a dependency that is not at hand, or a name.
-/

namespace AddonBuilder.Linker

open Json Package List
open Package (Config)

variable {files : Files} {path name : String} {e : Fault} {line : Option Nat} {main : Value}

section Linking

variable {s : Setting} {scope : Scope} {m : Module}

theorem hashFile_error
    (h : hashFile files path = .error e) : e = defect .file ∧ files.read? path = none := by
  unfold hashFile contentOf at h
  cases hread : files.read? path with
  | none =>
    rw [hread] at h
    cases h
    exact ⟨rfl, rfl⟩
  | some content =>
    rw [hread] at h
    cases h

theorem linesOf_error {s : Setting} (h : linesOf s path = .error e) :
    e = defect .file ∧ s.files.read? path = none ∨
      e = defect .encoding ∧ ∃ content, s.files.read? path = some content ∧
        s.strings.source? content = none := by
  unfold linesOf contentOf at h
  cases hread : s.files.read? path with
  | none =>
    rw [hread] at h
    cases h
    exact .inl ⟨rfl, rfl⟩
  | some content =>
    rw [hread] at h
    cases htext : s.strings.source? content with
    | none =>
      simp only [bind, Except.bind, htext] at h
      cases h
      exact .inr ⟨rfl, content, rfl, htext⟩
    | some text =>
      simp only [bind, Except.bind, htext] at h
      cases h

theorem exists_of_mem_dirsOf {cfg : Config} {sec : String} {dir : Text} (h : dir ∈ dirsOf cfg sec) :
    ∃ values dirs, (field cfg sec >>= asElements) = .ok values ∧
      values.mapM asText = .ok dirs ∧ dir ∈ dirs := by
  unfold dirsOf at h
  cases hv : Assoc.get? cfg sec with
  | none =>
    rw [hv] at h
    cases h
  | some v =>
    rw [hv] at h
    have hfield : field cfg sec = .ok v := by rw [field, hv]
    cases hall : (asElements v >>= fun l => l.mapM asText) with
    | error f =>
      simp only [hall, Except.toOption, Option.getD_none] at h
      cases h
    | ok dirs =>
      simp only [hall, Except.toOption, Option.getD_some] at h
      obtain ⟨values, hvalues, hdirs⟩ := bind_ok_iff.1 hall
      exact ⟨values, dirs, by rw [hfield]; exact hvalues, hdirs, h⟩

theorem plain_of_asText {v : Value} {t : Text} (h : asText v = .ok t) : v.plain = t := by
  cases v with
  | text t' =>
    cases h
    rfl
  | null | bool _ | int _ | float _ | array _ | object _ => cases h

theorem dataFiles_error (h : dataFiles s s.target = .error e) : Expected s scope e := by
  unfold dataFiles at h
  rcases bind_eq_error_iff.1 h with h | ⟨owner, -, h⟩
  · obtain ⟨f, hf, rfl⟩ := mapError_eq_error_iff.1 h
    exact Cause.expected (.target (.name hf))
  rcases bind_eq_error_iff.1 h with h | ⟨root, hroot, h⟩
  · obtain ⟨f, hf, rfl⟩ := mapError_eq_error_iff.1 h
    exact Cause.expected (.target (.root hf))
  rcases bind_eq_error_iff.1 h with h | ⟨digests, -, h⟩
  · obtain ⟨path, hpath, hhash⟩ := exists_of_mapM_eq_error h
    obtain ⟨rfl, hread⟩ := hashFile_error hhash
    obtain ⟨visit, hvisit, hpath⟩ := mem_flatMap.1 hpath
    obtain ⟨name, hname, rfl⟩ := mem_map.1 hpath
    exact Cause.expected (.data (mapError_eq_ok_iff.1 hroot) hvisit hname hread)
  · cases h

section Complete

variable (hcomplete : Complete s scope)

include hcomplete

theorem Complete.exists_main {root : String} (hmain : Assoc.get? s.target "main" = some main)
    (hroot : rootDir s.target = .ok root) :
    ∃ values libraries, fromPackage (field s.target "lib" >>= asElements) = .ok values ∧
      values.isEmpty = false ∧ values.mapM asText = .ok libraries ∧
      ∃ file ∈ libraries.flatMap fun l => mainFiles root main.plain.display (some l.display),
        s.files.contains file := by
  obtain ⟨dir, hdir, file, hfile, hexists⟩ := hcomplete.main main root hmain hroot
  obtain ⟨values, libraries, hvalues, hlibraries, hmem⟩ := exists_of_mem_dirsOf hdir
  have hsome : values.isEmpty = false := by
    cases values with
    | nil =>
      cases hlibraries
      cases hmem
    | cons v values => rfl
  exact ⟨values, libraries, mapError_eq_ok_iff.2 hvalues, hsome, hlibraries, file,
    mem_flatMap.2 ⟨dir, hmem, hfile⟩, hexists⟩

theorem topModule_error (hmain : Assoc.get? s.target "main" = some main)
    (he : topModule s main = .error e) : Expected s scope e := by
  have hunfit : ∀ f, Unfit s.target (Assoc.get? s.target "main") f →
      Expected s scope (.pkg f) := fun f hf => Cause.expected (.target hf)
  unfold topModule at he
  rcases bind_eq_error_iff.1 he with he | ⟨root, hroot, he⟩
  · obtain ⟨f, hf, rfl⟩ := mapError_eq_error_iff.1 he
    exact hunfit f (.root hf)
  obtain ⟨values, libraries, hvalues, hsome, hlibraries, file, hfile, hexists⟩ :=
    hcomplete.exists_main hmain (mapError_eq_ok_iff.1 hroot)
  rcases bind_eq_error_iff.1 he with he | ⟨values', hvalues', he⟩
  · cases hvalues.symm.trans he
  cases hvalues.symm.trans hvalues'
  dsimp only at he
  rw [if_neg (by rw [hsome]; exact Bool.false_ne_true)] at he
  rcases bind_eq_error_iff.1 he with he | ⟨mainName, hname, he⟩
  · obtain ⟨f, hf, rfl⟩ := mapError_eq_error_iff.1 he
    exact hunfit f (.main hmain hf)
  rcases bind_eq_error_iff.1 he with he | ⟨libraries', hlibraries', he⟩
  · obtain ⟨f, hf, rfl⟩ := mapError_eq_error_iff.1 he
    cases hlibraries.symm.trans hf
  cases hlibraries.symm.trans (mapError_eq_ok_iff.1 hlibraries')
  split at he
  · rename_i hnone
    rw [plain_of_asText (mapError_eq_ok_iff.1 hname)] at hfile
    exact absurd hexists (List.find?_eq_none.1 hnone file hfile)
  · rcases bind_eq_error_iff.1 he with he | ⟨name, -, he⟩
    · rcases nameInLibrary_error (Option.isSome_iff_exists.2 ⟨main, hmain⟩) he
        with hterms | ⟨f, rfl, hf⟩
      · exact .inl hterms
      · exact hunfit f hf
    · rcases bind_eq_error_iff.1 he with he | ⟨owner, -, he⟩
      · obtain ⟨f, hf, rfl⟩ := mapError_eq_error_iff.1 he
        exact hunfit f (.name hf)
      · cases he

theorem extraModule_error {x : ExtraModule} (hx : x ∈ scope.extra)
    (he : extraModule s x = .error e) : Expected s scope e := by
  unfold extraModule at he
  split at he
  · rename_i hnone
    have hknown := hcomplete.extra x hx
    rw [Assoc.contains, hnone] at hknown
    cases hknown
  · rename_i cfg hcfg
    rcases bind_eq_error_iff.1 he with he | ⟨owner, -, he⟩
    · obtain ⟨f, hf, rfl⟩ := mapError_eq_error_iff.1 he
      exact Cause.expected (.pkg hcfg (.name hf))
    · cases he

/-- **Every fault has a cause**, or linking has its own terms for it. -/
theorem Origin.expected (htests : scope.tests = false) (h : Origin s scope e) :
    Expected s scope e := by
  cases h with
  | relative hm hname => exact Cause.expected (.relative hm hname)
  | file hm hpath h =>
    obtain ⟨rfl, hread⟩ := hashFile_error h
    exact Cause.expected (.unreadable hm hpath hread)
  | lines hm h =>
    rcases linesOf_error h with ⟨rfl, hread⟩ | ⟨rfl, content, hread, htext⟩
    · exact Cause.expected (.unreadable hm mem_cons_self hread)
    · exact Cause.expected (.garbled hm hread htext)
  | chrome => exact .inl .chrome
  | search hm hasks h =>
    exact ((gives_resolve s _ _ _ _ _ _ h).2 _ rfl).expected hcomplete htests hm hasks
  | notFound n => exact .inl (.notFound n)
  | main hmain h => exact topModule_error hcomplete hmain h
  | name h =>
    obtain ⟨f, hf, rfl⟩ := mapError_eq_error_iff.1 h
    exact Cause.expected (.target (.name hf))
  | data h => exact dataFiles_error h
  | tests _ hwanted => exact absurd hwanted (by simp [htests])
  | extra hx h => exact extraModule_error hcomplete hx h

end Complete

end Linking

/-! ## Names of dots -/

theorem Means.not_dots {s : Setting} {m : Module}
    {found : Option Module} (h : Means s m name line found) (hrel : isRelative name) :
    ¬ ∀ step ∈ Path.names name, step = "." ∨ step = ".." := by
  obtain ⟨trail, hrun⟩ := h
  rw [resolve, if_neg (by rw [isEmpty_of_isRelative hrel]; decide), runs_bind_ok_iff] at hrun
  obtain ⟨sections, u, -, hrun⟩ := hrun
  dsimp only at hrun
  rw [if_pos hrel, runs_bind_ok_iff] at hrun
  obtain ⟨inside, u', hinside, -⟩ := hrun
  obtain ⟨way, hclimb, -⟩ := bind_ok_iff.1 (runs_lift_iff.1 hinside).1.symm
  obtain ⟨-, hleft⟩ := climb_spec hclimb
  intro hdots
  exact hleft (dropWhile_eq_nil_iff.2 (by simpa using hdots))

theorem isProvided_of_isRelative (h : isRelative name) : isProvided name = false := by
  have hhead := head_of_isRelative h
  rw [isProvided, Bool.or_eq_false_iff, decide_eq_false_iff_not]
  constructor
  · rintro rfl
    exact absurd hhead (by decide)
  · rw [← Bool.not_eq_true, Text.beginsWith_iff]
    rintro ⟨rest, rfl⟩
    rw [String.toList_append] at hhead
    exact absurd (Option.some.inj hhead) (by decide)

/-- Where linking ends, every name that is looked for was looked for without a fault. -/
theorem exists_means {s : Setting} {scope : Scope} {depth : Nat} {σ : Manifest}
    (htests : scope.tests = false) (hlink : link s scope depth = (.ok (), σ)) {m : Module}
    (hm : Met s scope m) (hasks : Asks s m name line)
    (hfree : isProvided name = false) : ∃ found, Means s m name line found := by
  rcases ((link_spec htests hlink).2 m hm).settled name line hasks with ⟨r, hstands, -⟩ | hstands
  · cases hstands with
    | provided hname => exact absurd hname (by rw [hfree]; exact Bool.false_ne_true)
    | found _ hmeans => exact ⟨_, hmeans⟩
    | missing _ hmeans => exact ⟨_, hmeans⟩
  · cases hstands with
    | ignored _ hmeans => exact ⟨_, hmeans⟩

/-- The defect at which linking stops, if it stops at one. -/
def defect? : Except Stop Unit → Option Defect
  | .error (.fault (.pkg (.defect d))) => some d
  | _ => none

theorem eq_of_defect? {r : Except Stop Unit} {d : Defect} (h : defect? r = some d) :
    r = .error (.fault (defect d)) := by
  unfold defect? at h
  split at h
  · cases h
    rfl
  · cases h

/-- A module that asks for `./.`. -/
def dotted : Setting := lone [source ["lib", "main.js"] "require('./.')"]

theorem complete_dotted : Complete dotted {} where
  filed := filed_lone _
  characters := characters_lone _
  target := ⟨"lone", rfl⟩
  main := by
    intro main root hmain hroot
    cases hmain
    cases hroot
    exact ⟨"lib", mem_singleton.2 rfl, "/lib/main.js", by decide, by decide⟩
  available := forall_mem_nil _
  dependencies := forall_mem_nil _
  extra := forall_mem_nil _

theorem link_dotted :
    link dotted {} 3 = (.error (.fault (defect .index)), (link dotted {} 3).2) := by
  refine Prod.ext (eq_of_defect? ?_) rfl
  decide +kernel

end AddonBuilder.Linker
