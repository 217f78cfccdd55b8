import AddonBuilder.Proofs.Linker.Steps

/-!
# The files of a manifest

Whatever linking enters as a source was read, as the file of a module of the program, and the data
files of the target are files of the tree.
-/

namespace AddonBuilder.Linker

open Json List

/-- Sources belong to modules of the program, and sources and data files can be read. -/
structure Backed (s : Setting) (scope : Scope) (σ : Manifest) : Prop where
  source : ∀ p e h, (p, e) ∈ σ.entries → e.source = some h →
    (∃ m, Met s scope m ∧ m.toPlace = p ∧ m.file = h.file) ∧
      ∃ content, s.files.read? h.file = some content
  data : ∀ key d, (key, d) ∈ σ.data → ∀ x ∈ d.files, ∃ content, s.files.read? x.2 = some content

section Steps

variable {s : Setting} {scope : Scope} {σ τ : Manifest}

theorem Backed.claimed (h : Backed s scope σ) (p : Place) : Backed s scope (σ.claimed p) := by
  unfold Manifest.claimed
  split
  · exact h
  · refine ⟨fun q e x hmem hsource => ?_, h.data⟩
    rcases Assoc.mem_of_mem_insert hmem with hnew | hmem
    · cases hnew
      cases hsource
    · exact h.source q e x hmem hsource

/-- An entry may be changed if every source it gets is right. -/
theorem Backed.update (h : Backed s scope σ) {p : Place} {f : Entry → Entry}
    (hf : ∀ e x, (f e).source = some x → e.source = some x ∨
      (∃ m, Met s scope m ∧ m.toPlace = p ∧ m.file = x.file) ∧
        ∃ content, s.files.read? x.file = some content) : Backed s scope (σ.update p f) := by
  refine ⟨fun q e x hmem hsource => ?_, h.data⟩
  rcases Assoc.mem_of_mem_insert hmem with hnew | hmem
  · cases hnew
    rcases hf _ x hsource with hold | hright
    · unfold Manifest.entry at hold
      cases hget : Assoc.get? σ.entries p with
      | none =>
        rw [hget] at hold
        cases hold
      | some e =>
        rw [hget] at hold
        exact h.source p e x (Assoc.mem_of_get? hget) hold
    · exact hright
  · exact h.source q e x hmem hsource

theorem read?_of_hashFile {path : String} {h : HashedFile}
    (hhash : hashFile s.files path = .ok h) : ∃ content, s.files.read? path = some content := by
  obtain ⟨content, hcontent, -⟩ := bind_ok_iff.1 hhash
  unfold contentOf at hcontent
  split at hcontent
  · rename_i bytes hread
    exact ⟨bytes, hread⟩
  · cases hcontent

theorem read?_of_dataFiles {cfg : Package.Config} {d : DataFiles}
    (hd : dataFiles s cfg = .ok d) {x : String × String} (hx : x ∈ d.files) :
    ∃ content, s.files.read? x.2 = some content := by
  unfold dataFiles at hd
  obtain ⟨pkg, -, hd⟩ := bind_ok_iff.1 hd
  obtain ⟨root, -, hd⟩ := bind_ok_iff.1 hd
  obtain ⟨digests, hdigests, hd⟩ := bind_ok_iff.1 hd
  obtain rfl := pure_ok_iff.1 hd
  obtain ⟨⟨name, path⟩, hzip, rfl⟩ := mem_map.1 hx
  obtain ⟨h, -, hhash⟩ := exists_mem_of_mapM hdigests (of_mem_zip hzip).2
  exact read?_of_hashFile hhash

/-- Only one kind of step enters a source: the file of a module, which has just been read. -/
theorem Backed.step (hstep : Step s scope σ τ) (h : Backed s scope σ) : Backed s scope τ := by
  cases hstep with
  | noted | top | listed => exact ⟨h.source, h.data⟩
  | claimed | finder => exact h.claimed _
  | @reached m _ _ =>
    have hclaimed := h.claimed m.toPlace
    exact ⟨hclaimed.source, hclaimed.data⟩
  | page | required | test => exact h.update fun _ _ hx => .inl hx
  | source hm hhash =>
    have hfile := hashFile_file hhash
    refine h.update fun e x hx => .inr ?_
    cases hx
    exact ⟨⟨_, hm, rfl, hfile.symm⟩, hfile ▸ read?_of_hashFile hhash⟩
  | data name hd =>
    refine ⟨h.source, fun key d' hmem => ?_⟩
    rcases Assoc.mem_of_mem_insert hmem with hnew | hmem
    · cases hnew
      exact fun x hx => read?_of_dataFiles hd hx
    · exact h.data key d' hmem

end Steps

/-- **Linking enters only files that it has read.** -/
theorem link_backed {s : Setting} {scope : Scope} {depth : Nat} {r : Except Stop Unit}
    {σ : Manifest} (hlink : link s scope depth = (r, σ)) : Backed s scope σ :=
  (link_steps hlink).invariant (fun _ _ => Backed.step) ⟨nofun, nofun⟩

section UsedFiles

variable {s : Setting} {scope : Scope} {σ : Manifest} {used : List String}
  (hused : σ.usedFiles true = .ok used)

include hused

theorem usedFiles_spec :
    (∀ x ∈ σ.entries, ∃ h, x.2.source = some h ∧ h.file ∈ used) ∧
      ∀ path ∈ used, (∃ x ∈ σ.data, ∃ y ∈ x.2.files, y.2 = path) ∨
        ∃ x ∈ σ.entries, ∃ h, x.2.source = some h ∧ h.file = path := by
  have hall : σ.entries.filter (fun x => Manifest.counts true x.1) = σ.entries :=
    filter_eq_self.2 fun _ _ => rfl
  unfold Manifest.usedFiles at hused
  rw [hall] at hused
  obtain ⟨sources, hsources, hused⟩ := bind_ok_iff.1 hused
  obtain rfl := pure_ok_iff.1 hused
  constructor
  · intro x hx
    obtain ⟨p, e⟩ := x
    obtain ⟨file, hfile, hsource⟩ := exists_mem_of_mapM hsources hx
    grind
  · intro path hpath
    rcases mem_append.1 hpath with hdata | hsource
    · obtain ⟨x, hx, hmem⟩ := mem_flatMap.1 hdata
      obtain ⟨y, hy, rfl⟩ := mem_map.1 hmem
      exact .inl ⟨x, hx, y, hy, rfl⟩
    · obtain ⟨⟨p, e⟩, he, hfile⟩ := exists_of_mem_mapM hsources hsource
      grind

/-- Every file that is used can be read. -/
theorem exists_of_mem_usedFiles (hbacked : Backed s scope σ) {path : String} (hpath : path ∈ used) :
    ∃ content, s.files.read? path = some content := by
  rcases (usedFiles_spec hused).2 path hpath with
    ⟨⟨key, d⟩, hd, y, hy, rfl⟩ | ⟨⟨p, e⟩, he, h, hsource, rfl⟩
  · exact hbacked.data key d hd y hy
  · exact (hbacked.source p e h he hsource).2

end UsedFiles

end AddonBuilder.Linker
