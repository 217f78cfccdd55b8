import AddonBuilder.Proofs.Application.Unpacking

/-!
# Installing add-ons

Each add-on has a **place** in the directory of extensions, and installing it changes nothing
elsewhere: an archive is unpacked or copied, and a directory is copied.
-/

namespace AddonBuilder.Application

open Session Path List FileTree Option Install Profile
open Files (Grows)
open AddonBuilder.Path (IsName Bare below)

/-- How an add-on comes: as an archive that stays one, as an archive that is unpacked, or as a
directory. -/
inductive Form where
  | packed (archive : Archive)
  | unpacked (archive : Archive)
  | dir (source : Location)
deriving DecidableEq, Repr

/-- An extension to be installed, and how it is given. -/
structure Addon where
  id : String
  form : Form
deriving DecidableEq, Repr

namespace Addon

/-- Whether an extension is installed as a directory. -/
def isUnpacked (a : Addon) : Bool :=
  match a.form with
  | .unpacked _ => true
  | _ => false

/-- The name under which an add-on stands among the extensions. -/
def place (a : Addon) : String :=
  match a.form with
  | .packed _ => a.id ++ ".xpi"
  | _ => a.id

/-- What stands at and below the place of an add-on that is not unpacked. -/
def copy (t : FileTree) (a : Addon) (way : Location) : Option Node :=
  match a.form with
  | .packed archive => if way = [] then some (.archive archive) else none
  | .unpacked _ => none
  | .dir source => if way = [] then some .dir else t.get? (source ++ way)

theorem place_of_isUnpacked {a : Addon} (h : a.isUnpacked) : a.place = a.id := by
  unfold isUnpacked at h
  unfold place
  split at h
  · rename_i archive hform
    rw [hform]
  · cases h

theorem copy_nil_isSome (t : FileTree) {a : Addon} (h : a.isUnpacked = false) :
    (a.copy t []).isSome := by
  obtain ⟨id, form⟩ := a
  cases form with
  | packed archive => rfl
  | unpacked archive => cases h
  | dir source => rfl

theorem copy_packed (t : FileTree) (id : String) (archive : Archive) (way : Location) :
    copy t ⟨id, .packed archive⟩ way = if way = [] then some (.archive archive) else none := rfl

theorem copy_dir (t : FileTree) (id : String) (source way : Location) :
    copy t ⟨id, .dir source⟩ way =
      if way = [] then some .dir else t.get? (source ++ way) := rfl

end Addon

def addonAt? (f : Files) (path : String) : Option Addon :=
  if Text.endsWith path ".xpi" then
    match f.node? path with
    | some (.archive a) => do
      let d ← (details (← a.content? fileName)).toOption
      return ⟨(← d.id).display, if d.unpack then .unpacked a else .packed a⟩
    | _ => none
  else do
    let d ← (details (← f.read? (join path fileName))).toOption
    return ⟨(← d.id).display, .dir (← f.tree.locate? f.here path)⟩

/-- Whether a path stands for one add-on, and not for all that are in a directory. -/
def isAddonPath (f : Files) (path : String) : Bool :=
  Text.endsWith path ".xpi" || f.contains (join path fileName)

/-- The paths of the add-ons for which a path stands. -/
def addonPaths (f : Files) (path : String) : List String :=
  if isAddonPath f path then [path] else ((f.list? path).getD []).map (join path)

/-- The extension is given by one of the paths. -/
def Offers (f : Files) (paths : List String) (a : Addon) : Prop :=
  ∃ path ∈ paths, ∃ q ∈ addonPaths f path, addonAt? f q = some a

/-! ## Installing one add-on -/

variable {p : Profile} {s s' : Session} {extensions path : String}

theorem makeDirs_eq {l : Location} (hhere : ∀ n ∈ s.files.here, IsName n)
    (hl : s.files.tree.locate? s.files.here path = some l)
    (habove : ∀ k < l.length, (s.files.tree.get? (l.take k)).isSome)
    (hnone : s.files.tree.get? l = none) (h : outcome (makeDirs path) s = (.ok (), s')) :
    s' = { s with files := { s.files with tree := s.files.tree.put l .dir } } := by
  unfold Session.makeDirs at h
  rw [outcome_bind_ok outcome_currentFiles, Files.names_absolute hhere hl] at h
  dsimp only at h
  split at h
  · cases h
  · cases h
    rw [makeDirs_eq habove, hnone]
    rfl

theorem copyDir_checks {source target : String}
    (h : outcome (copyDir source target) s = (.ok (), s')) :
    s.files.isDir source ∧ s.files.contains target = false ∧
      ∃ s₁ a b, outcome (makeDirs target) s = (.ok (), s₁) ∧
        s₁.files.tree.locate? s₁.files.here source = some a ∧
        s₁.files.tree.locate? s₁.files.here target = some b ∧
        s' = { s₁ with files := { s₁.files with tree := s₁.files.tree.copyAll a b } } := by
  unfold copyDir at h
  rw [outcome_bind_ok outcome_currentFiles] at h
  dsimp only at h
  split at h
  · cases h
  · rename_i hchecks
    simp only [Bool.or_eq_true, not_or, Bool.not_eq_true', Bool.not_eq_true, Bool.not_eq_false]
      at hchecks
    obtain ⟨⟨⟩, s₁, hmake, hcopy⟩ := outcome_bind_ok_iff.1 h
    rw [outcome_bind_ok outcome_currentFiles] at hcopy
    split at hcopy
    · rename_i a b hsource htarget
      cases hcopy
      exact ⟨hchecks.1, hchecks.2, s₁, a, b, hmake, hsource, htarget, rfl⟩
    · cases hcopy

theorem copyDir_eq {source target : String} {a l : Location}
    (hhere : ∀ n ∈ s.files.here, IsName n) (ha : s.files.tree.locate? s.files.here source = some a)
    (hl : s.files.tree.locate? s.files.here target = some l) (hne : l ≠ [])
    (habove : ∀ k < l.length, (s.files.tree.get? (l.take k)).isSome)
    (h : outcome (copyDir source target) s = (.ok (), s')) :
    s.files.tree.isDir a ∧ s.files.tree.get? l = none ∧
      s' = { s with files := { s.files with
        tree := (s.files.tree.put l .dir).copyAll a l } } := by
  obtain ⟨hsource, htarget, s₁, a', l', hmake, ha', hl', rfl⟩ := copyDir_checks h
  have hdir : s.files.tree.isDir a := by
    rw [Files.isDir, Files.node?, ha] at hsource
    exact hsource
  have hnone : s.files.tree.get? l = none := by
    rw [Files.contains, Files.node?, hl] at htarget
    simpa using htarget
  obtain rfl := makeDirs_eq hhere hl habove hnone hmake
  have hgrows : Grows l s.files { s.files with tree := s.files.tree.put l .dir } :=
    .put prefix_rfl hne (by rw [isDir, hnone]; rfl) _
  obtain rfl := some.inj ((hgrows.locate?_eq ha).symm.trans ha')
  obtain rfl := some.inj ((hgrows.locate?_eq hl).symm.trans hl')
  exact ⟨hdir, hnone, rfl⟩

theorem placeFor_eq {description : Bytes} {place : String} {isUnpacked : Bool}
    (h : outcome (placeFor extensions description) s = (.ok (place, isUnpacked), s')) :
    s = s' ∧ ∃ d id, details description = .ok d ∧ d.id = some id ∧
      place = join extensions id.display ∧ isUnpacked = d.unpack := by
  obtain ⟨d, s₁, hdetails, hplace⟩ := outcome_bind_ok_iff.1 h
  obtain ⟨hdetails', rfl⟩ := outcome_ofExcept_ok_iff.1 hdetails
  cases hid : d.id with
  | none =>
    rw [hid] at hplace
    cases hplace
  | some id =>
    rw [hid] at hplace
    obtain ⟨hpair, rfl⟩ := Prod.mk.inj hplace
    grind

def noteUnpacked (s : Session) (dir path : String) : Session :=
  let noted := (Assoc.get? s.unpacked dir).getD []
  { s with unpacked := Assoc.insert s.unpacked dir (noted ++ [path]) }

theorem locate?_of_addonAt? {f : Files} {id : String} {source : Location}
    (h : addonAt? f path = some ⟨id, .dir source⟩) :
    f.tree.locate? f.here path = some source := by
  unfold addonAt? at h
  split at h
  · split at h
    · obtain ⟨bytes, -, h₁⟩ := bind_eq_some_iff.1 h
      obtain ⟨details, -, h₂⟩ := bind_eq_some_iff.1 h₁
      obtain ⟨text, -, h₃⟩ := bind_eq_some_iff.1 h₂
      grind
    · cases h
  · obtain ⟨bytes, -, h₁⟩ := bind_eq_some_iff.1 h
    obtain ⟨details, -, h₂⟩ := bind_eq_some_iff.1 h₁
    obtain ⟨text, -, h₃⟩ := bind_eq_some_iff.1 h₂
    obtain ⟨l, hl, h₄⟩ := bind_eq_some_iff.1 h₃
    cases h₄
    exact hl

theorem installOne_cases (h : outcome (p.installOne extensions path) s = (.ok (), s')) :
    (∃ id archive s₁, addonAt? s.files path = some ⟨id, .unpacked archive⟩ ∧
      (archive.content? fileName).isSome ∧
      outcome (unpack archive (join extensions id)) s = (.ok (), s₁) ∧
      s' = noteUnpacked s₁ p.dir (join extensions id)) ∨
    (∃ id archive files, addonAt? s.files path = some ⟨id, .packed archive⟩ ∧
      s.files.write? (join extensions id ++ ".xpi") (.archive archive) = some files ∧
      s' = { s with files := files }) ∨
    (∃ id source, addonAt? s.files path = some ⟨id, .dir source⟩ ∧
      outcome (copyDir path (join extensions id)) s = (.ok (), s')) := by
  unfold installOne at h
  split at h
  · rename_i hend
    obtain ⟨node, s₁, hread, hinstall⟩ := outcome_bind_ok_iff.1 h
    obtain ⟨hnode, rfl⟩ := outcome_demand_ok_iff.1 hread
    cases node with
    | dir => cases hinstall
    | file content => cases hinstall
    | archive archive =>
      obtain ⟨description, s₂, hdemand, hplaced⟩ := outcome_bind_ok_iff.1 hinstall
      obtain ⟨hcontent, rfl⟩ := outcome_demand_ok_iff.1 hdemand
      obtain ⟨⟨place, isUnpacked⟩, s₃, hplaceFor, hput⟩ := outcome_bind_ok_iff.1 hplaced
      obtain ⟨rfl, d, id, hdetails, hid, rfl, rfl⟩ := placeFor_eq hplaceFor
      have haddon : addonAt? s.files path =
          some ⟨id.display, if d.unpack then .unpacked archive else .packed archive⟩ := by
        simp [addonAt?, hend, hnode, hcontent, hdetails, hid, Except.toOption]
      cases hunpack : d.unpack with
      | true =>
        rw [hunpack, if_pos rfl] at haddon
        rw [hunpack] at hput
        obtain ⟨⟨⟩, s₄, hunpacked, hnote⟩ := outcome_bind_ok_iff.1 hput
        cases hnote
        exact .inl ⟨_, archive, s₄, haddon, by rw [hcontent]; rfl, hunpacked, rfl⟩
      | false =>
        rw [hunpack, if_neg (by simp)] at haddon
        rw [hunpack] at hput
        obtain ⟨node, s₄, hread', hcopy⟩ := outcome_bind_ok_iff.1 hput
        obtain ⟨hnode', rfl⟩ := outcome_demand_ok_iff.1 hread'
        obtain rfl : Node.archive archive = node := some.inj (hnode.symm.trans hnode')
        obtain ⟨files, hwrite, rfl⟩ := outcome_change_ok_iff.1 hcopy
        exact .inr (.inl ⟨_, archive, files, haddon, hwrite, rfl⟩)
  · rename_i hend
    obtain ⟨description, s₁, hread, hplaced⟩ := outcome_bind_ok_iff.1 h
    obtain ⟨hbytes, rfl⟩ := outcome_demand_ok_iff.1 hread
    obtain ⟨⟨place, isUnpacked⟩, s₂, hplaceFor, hcopy⟩ := outcome_bind_ok_iff.1 hplaced
    obtain ⟨rfl, d, id, hdetails, hid, rfl, rfl⟩ := placeFor_eq hplaceFor
    obtain ⟨source, hsource⟩ : ∃ source, s.files.tree.locate? s.files.here path = some source := by
      have hdir := (copyDir_checks hcopy).1
      rw [Files.isDir, Files.node?] at hdir
      cases hsource : s.files.tree.locate? s.files.here path with
      | none => simp [hsource] at hdir
      | some source => exact ⟨source, rfl⟩
    refine .inr (.inr ⟨id.display, source, ?_, hcopy⟩)
    simp [addonAt?, hend, hbytes, hdetails, hid, hsource, Except.toOption]

/-- Installing makes the directory of extensions, and goes through the add-ons one by one. -/
theorem install_cases (h : outcome (p.install path) s = (.ok (), s')) :
    ∃ s₁, outcome (if !s.files.contains (join p.dir "extensions") then
        makeDirs (join p.dir "extensions") else pure ()) s = (.ok (), s₁) ∧
      outcome ((addonPaths s₁.files path).forM
        (p.installOne (join p.dir "extensions"))) s₁ = (.ok (), s') := by
  unfold install at h
  rw [outcome_bind_ok outcome_currentFiles] at h
  generalize p.installOne (join p.dir "extensions") = one at h ⊢
  generalize makeDirs (join p.dir "extensions") = make at h ⊢
  have hrest : ∀ s₁ : Session, outcome (do
      let isOne := Text.endsWith path ".xpi" || (← currentFiles).contains (join path fileName)
      let paths ← if isOne then pure [path] else do
        let names ← demand .file ((← currentFiles).list? path)
        pure (names.map (join path))
      paths.forM one) s₁ = (.ok (), s') →
      outcome ((addonPaths s₁.files path).forM one) s₁ = (.ok (), s') := by
    intro s₁ h
    rw [outcome_bind_ok outcome_currentFiles] at h
    dsimp only at h
    rw [addonPaths, isAddonPath]
    split at h
    · rw [if_pos ‹_›]
      rwa [outcome_bind_ok (outcome_pure _)] at h
    · rw [if_neg ‹_›]
      rw [outcome_bind_ok outcome_currentFiles] at h
      obtain ⟨names, s₂, hdemand, h⟩ := outcome_bind_ok_iff.1 h
      obtain ⟨hnames, rfl⟩ := outcome_demand_ok_iff.1 hdemand
      rw [hnames]
      rwa [outcome_bind_ok (outcome_pure _)] at h
  dsimp only at h
  split at h
  · obtain ⟨⟨⟩, s₁, hmake, hinstall⟩ := outcome_bind_ok_iff.1 h
    exact ⟨s₁, by rwa [if_pos ‹_›], hrest s₁ hinstall⟩
  · exact ⟨s, by rw [if_neg ‹_›, outcome_pure], hrest s h⟩

/-! ## What holds while add-ons are installed -/

/-- Where a profile keeps its extensions. -/
def extensionsAt (d : Location) : Location := d ++ ["extensions"]

/-- A path leads to something that does not contain the extensions. -/
def Source (s : Session) (d : Location) (path : String) (m : Location) : Prop :=
  s.files.tree.locate? s.files.here path = some m ∧ (s.files.tree.get? m).isSome = true ∧
    ¬ m <+: extensionsAt d

/-- The profile of a user before a run: an existing directory, and add-ons of which none is installed
there yet. -/
structure Ready (s : Session) (dir : String) (d : Location) (addons : List String) : Prop where
  sound : s.files.tree.Sound
  named : s.files.tree.Named
  here : ∀ n ∈ s.files.here, IsName n
  profile : s.files.Reaches dir d
  extensions : ∀ node, s.files.tree.get? (extensionsAt d) = some node → node = .dir
  given : ∀ path ∈ addons, ∃ m, Source s d path m
  ids : ∀ a, Offers s.files addons a → IsName a.id
  free : ∀ a, Offers s.files addons a → s.files.tree.get? (extensionsAt d ++ [a.place]) = none
  entries : ∀ a archive, Offers s.files addons a → a.form = .unpacked archive →
    ∀ e ∈ archive, IsEntryName e.name

/-- The state of a profile after some of the add-ons were installed. -/
structure Installed (s₀ : Session) (dir : String) (d : Location) (addons : List String)
    (done : List Addon) (s : Session) : Prop where
  grows : Grows (extensionsAt d) s₀.files s.files
  made : s.files.tree.isDir (extensionsAt d) = true ∨
    done = [] ∧ s.files.tree.get? (extensionsAt d) = s₀.files.tree.get? (extensionsAt d)
  offered : ∀ a ∈ done, Offers s₀.files addons a
  /-- Where no add-on went, nothing has changed. -/
  untouched : ∀ n, (∀ a ∈ done, a.place ≠ n) → ∀ way,
    s.files.tree.get? (extensionsAt d ++ n :: way) = s₀.files.tree.get? (extensionsAt d ++ n :: way)
  /-- Where no add-on was unpacked, one of them stands as it came. -/
  kept : ∀ n, (∃ a ∈ done, a.place = n) → (∀ a ∈ done, a.place = n → a.isUnpacked = false) →
    ∃ a ∈ done, a.place = n ∧ ∀ way,
      s.files.tree.get? (extensionsAt d ++ n :: way) = a.copy s₀.files.tree way
  unpacked : ∀ a ∈ done, a.isUnpacked = true →
    s.files.tree.isDir (extensionsAt d ++ [a.place]) = true
  noted : ∃ ids : List String, Assoc.get? s.unpacked dir =
      some (ids.map (join (join dir "extensions"))) ∧
    ∀ id, id ∈ ids ↔ ∃ a ∈ done, a.isUnpacked = true ∧ a.id = id

namespace Installed

variable {s₀ s s' : Session} {dir : String} {d : Location} {addons : List String}
  {done : List Addon} {a : Addon} {n : String}

theorem step (h : Installed s₀ dir d addons done s) (hoffer : Offers s₀.files addons a)
    (hextensions : s.files.tree.isDir (extensionsAt d))
    (hgrows : Grows (extensionsAt d ++ [a.place]) s.files s'.files)
    (hunpacked : a.isUnpacked → s'.files.tree.isDir (extensionsAt d ++ [a.place]))
    (hcopy : a.isUnpacked = false → ∀ way,
      s'.files.tree.get? (extensionsAt d ++ a.place :: way) = a.copy s₀.files.tree way)
    (hnoted : Assoc.get? s'.unpacked dir = (Assoc.get? s.unpacked dir).map fun paths =>
      if a.isUnpacked then paths ++ [join (join dir "extensions") a.id] else paths) :
    Installed s₀ dir d addons (a :: done) s' := by
  have helse : ∀ n, a.place ≠ n → ∀ way, s'.files.tree.get? (extensionsAt d ++ n :: way) =
      s.files.tree.get? (extensionsAt d ++ n :: way) := by
    intro n hn way
    refine hgrows.others _ fun hprefix => hn ?_
    have hprefix' := (prefix_append_right_inj _).1 hprefix
    exact (cons_prefix_cons.1 hprefix').1
  refine ⟨h.grows.trans (hgrows.widen (prefix_append _ _)),
    .inl (hgrows.dirs _ hextensions), ?_, ?_, ?_, ?_, ?_⟩
  · simpa using ⟨hoffer, h.offered⟩
  · intro n hn way
    rw [helse n (hn a mem_cons_self), h.untouched n fun b hb => hn b (mem_cons_of_mem _ hb)]
  · intro n hsome hnone
    by_cases han : a.place = n
    · subst han
      exact ⟨a, mem_cons_self, rfl, hcopy (hnone a mem_cons_self rfl)⟩
    · obtain ⟨b, hb, hbn⟩ := hsome
      have hb : b ∈ done := (mem_cons.1 hb).resolve_left fun hab => han (hab ▸ hbn)
      obtain ⟨c, hc, hcn, hway⟩ := h.kept n ⟨b, hb, hbn⟩ fun c hc =>
        hnone c (mem_cons_of_mem _ hc)
      exact ⟨c, mem_cons_of_mem _ hc, hcn, fun way => (helse n han way).trans (hway way)⟩
  · intro b hb hb'
    rcases mem_cons.1 hb with rfl | hb
    · exact hunpacked hb'
    · exact hgrows.dirs _ (h.unpacked b hb hb')
  · obtain ⟨ids, hids, hmem⟩ := h.noted
    refine ⟨if a.isUnpacked then ids ++ [a.id] else ids, ?_, fun id => ?_⟩
    · rw [hnoted, hids]
      cases a.isUnpacked <;> simp
    · cases hpacked : a.isUnpacked <;> simp [hpacked, hmem, or_comm, eq_comm (a := id)]

section

variable (hready : Ready s₀ dir d addons) (h : Installed s₀ dir d addons done s)

include hready h

/-- Nothing stands below a free place that is no directory. -/
theorem get?_below_eq_none (hfree : s₀.files.tree.get? (extensionsAt d ++ [n]) = none)
    (hn : s.files.tree.isDir (extensionsAt d ++ [n]) = false) {way : Location}
    (hway : way ≠ []) : s.files.tree.get? (extensionsAt d ++ n :: way) = none := by
  by_cases hsome : ∃ a ∈ done, a.place = n
  · by_cases hunpacked : ∀ a ∈ done, a.place = n → a.isUnpacked = false
    · obtain ⟨a, -, -, hcopy⟩ := h.kept n hsome hunpacked
      have hroot := hcopy []
      rw [hcopy way]
      rw [isDir, hroot] at hn
      unfold Addon.copy at hn ⊢
      split at hn <;> simp_all
    · push Not at hunpacked
      obtain ⟨a, ha, rfl, hdir⟩ := hunpacked
      rw [h.unpacked a ha (by simpa using hdir)] at hn
      cases hn
  · push Not at hsome
    rw [h.untouched n hsome way, ← singleton_append, ← append_assoc]
    exact hready.sound.get?_append_eq_none hfree way

/-- What was there before and does not contain the extensions is as it was, with everything below. -/
theorem get?_eq {m : Location} (hm : (s₀.files.tree.get? m).isSome)
    (hextensions : ¬ m <+: extensionsAt d) (way : Location) :
    s.files.tree.get? (m ++ way) = s₀.files.tree.get? (m ++ way) := by
  by_cases hbelow : extensionsAt d <+: m ++ way
  · have hprefix := (List.prefix_or_prefix_of_prefix (prefix_append m way) hbelow).resolve_left
      hextensions
    obtain ⟨rest, rfl⟩ := hprefix
    cases rest with
    | nil => exact absurd (by simp) hextensions
    | cons n rest =>
      rw [append_assoc, cons_append]
      refine h.untouched n (fun a ha han => ?_) (rest ++ way)
      have hnone := hready.sound.get?_append_eq_none (hready.free a (h.offered a ha)) rest
      rw [han, append_assoc, singleton_append] at hnone
      rw [hnone] at hm
      cases hm
  · exact h.grows.others _ hbelow

section Reading

variable {path q : String} {m : Location} (hsource : Source s₀ d path m)

include hsource

theorem node?_eq : s.files.node? path = s₀.files.node? path := by
  have hget := get?_eq hready h hsource.2.1 hsource.2.2 []
  rw [append_nil] at hget
  rw [Files.node?, Files.node?, h.grows.locate?_eq hsource.1, hsource.1]
  exact hget

theorem isDir_eq : s.files.tree.isDir m = s₀.files.tree.isDir m := by
  have hget := get?_eq hready h hsource.2.1 hsource.2.2 []
  rw [append_nil] at hget
  rw [isDir, isDir, hget]

theorem node?_join_eq (hn : IsName n) :
    s.files.node? (join path n) = s₀.files.node? (join path n) := by
  have hpath := isEmpty_of_locate? hsource.1
  rw [Files.node?, Files.node?, locate?_join hpath hn, locate?_join hpath hn,
    h.grows.locate?_eq hsource.1, hsource.1, bind_some, bind_some]
  by_cases hm : s₀.files.tree.isDir m
  · have hm' := (isDir_eq hready h hsource).trans hm
    rw [walk?_cons hm hn.1, walk?_cons hm' hn.1]
    exact get?_eq hready h hsource.2.1 hsource.2.2 [n]
  · have hm' : ¬ s.files.tree.isDir m := by rwa [isDir_eq hready h hsource]
    simp [walk?, hm, hm']

theorem addonAt?_eq : addonAt? s.files path = addonAt? s₀.files path := by
  unfold addonAt? Files.read?
  rw [node?_eq hready h hsource, node?_join_eq hready h hsource (by decide),
    h.grows.locate?_eq hsource.1, hsource.1]

theorem isAddonPath_eq : isAddonPath s.files path = isAddonPath s₀.files path := by
  unfold isAddonPath Files.contains
  rw [node?_join_eq hready h hsource (by decide)]

theorem mem_addonPaths : q ∈ addonPaths s.files path ↔ q ∈ addonPaths s₀.files path := by
  unfold addonPaths
  rw [isAddonPath_eq hready h hsource]
  split
  · rfl
  · unfold Files.list?
    rw [h.grows.locate?_eq hsource.1, hsource.1, bind_eq_bind, bind_some,
      bind_some, isDir_eq hready h hsource]
    split
    · have hchildren : ∀ n, n ∈ s.files.tree.children m ↔ n ∈ s₀.files.tree.children m := by
        intro n
        rw [mem_children, mem_children, mem_keys_iff (by simp),
          mem_keys_iff (by simp), get?_eq hready h hsource.2.1 hsource.2.2 [n]]
      simp only [getD_some, List.mem_map, hchildren]
    · rfl

end Reading

end

end Installed

theorem Ready.source {s : Session} {dir path q : String} {d m : Location} {addons : List String}
    (h : Ready s dir d addons) (hsource : Source s d path m)
    (hq : q ∈ addonPaths s.files path) : ∃ m, Source s d q m := by
  unfold addonPaths at hq
  split at hq
  · obtain rfl := mem_singleton.1 hq
    exact ⟨m, hsource⟩
  · obtain ⟨n, hn, rfl⟩ := mem_map.1 hq
    unfold Files.list? at hn
    rw [hsource.1, bind_eq_bind, bind_some] at hn
    split at hn
    · rename_i hdir
      have hkey := mem_children.1 hn
      have hname : IsName n := h.named _ hkey n (by simp)
      have hreaches : s.files.Reaches path m := ⟨hsource.1, hdir⟩
      exact ⟨m ++ [n], hreaches.locate?_join hname, (mem_keys_iff (by simp)).1 hkey,
        fun hprefix => hsource.2.2 ((prefix_append _ _).trans hprefix)⟩
    · cases hn

section Run

variable {s₀ s s' : Session} {p : Profile} {d : Location} {addons : List String} {done : List Addon}
  (hready : Ready s₀ p.dir d addons)

include hready

theorem locate?_extensions (h : Installed s₀ p.dir d addons done s) :
    s.files.tree.locate? s.files.here (join p.dir "extensions") = some (extensionsAt d) :=
  (hready.profile.grows h.grows).locate?_join (by decide)

theorem isSome_get?_take (h : Installed s₀ p.dir d addons done s) (k : Nat) :
    (s.files.tree.get? (d.take k)).isSome := by
  have hwhole : s₀.files.tree.isDir (d.take k ++ d.drop k) := by
    rw [take_append_drop]
    exact hready.profile.2
  have hbefore := hready.sound.isDir_of_append hwhole
  rw [isDir_iff.1 (h.grows.dirs _ hbefore)]
  rfl

section Step

variable {path q id : String} {m : Location} {archive : Archive}
  (h : Installed s₀ p.dir d addons done s)
  (hextensions : s.files.tree.isDir (extensionsAt d))

include h hextensions

theorem reaches_extensions : s.files.Reaches (join p.dir "extensions") (extensionsAt d) :=
  ⟨locate?_extensions hready h, hextensions⟩

theorem isSome_get?_take_extensions (k : Nat) :
    (s.files.tree.get? ((extensionsAt d).take k)).isSome := by
  rcases Nat.lt_or_ge k (extensionsAt d).length with hlt | hge
  · exact isSome_get?_take_concat (isSome_get?_take hready h) hlt
  · rw [take_of_length_le hge, isDir_iff.1 hextensions]
    rfl

theorem packed_step (hoffer : Offers s₀.files addons ⟨id, .packed archive⟩) {files : Files}
    (hwrite : s.files.write? (join (join p.dir "extensions") id ++ ".xpi")
      (.archive archive) = some files) :
    Installed s₀ p.dir d addons (⟨id, .packed archive⟩ :: done) { s with files := files } := by
  have hreaches := reaches_extensions hready h hextensions
  have hbare : Bare (join p.dir "extensions") := IsName.bare_join (by decide) p.dir
  have hid : IsName (id ++ ".xpi") := (hready.ids _ hoffer).append_xpi
  have hpath : join (join p.dir "extensions") id ++ ".xpi" =
      below (join p.dir "extensions") [id ++ ".xpi"] := by
    rw [hbare.join (hready.ids _ hoffer), below_cons, below_nil, String.append_assoc]
  rw [hpath] at hwrite
  obtain ⟨l, hl, -, -, hfile, rfl⟩ := Files.exists_of_write? hwrite
  obtain rfl := hreaches.locate?_below hbare (by simpa using hid) hl
  refine h.step hoffer hextensions (.put prefix_rfl (by simp) hfile _) (fun hpacked => by cases hpacked)
    (fun _ way => ?_) (by simp [Addon.isUnpacked])
  show (s.files.tree.put _ _).get? (extensionsAt d ++ (id ++ ".xpi") :: way) = _
  rw [get?_put (by simp), Addon.copy_packed]
  by_cases hway : way = []
  · rw [hway, if_pos rfl, if_pos rfl]
  · rw [if_neg (by simp [hway]), if_neg hway]
    exact h.get?_below_eq_none hready (hready.free _ hoffer) hfile hway

theorem unpacked_step (hoffer : Offers s₀.files addons ⟨id, .unpacked archive⟩)
    (hcontent : (archive.content? fileName).isSome) {s₁ : Session}
    (hunpack : outcome (unpack archive (join (join p.dir "extensions") id)) s = (.ok (), s₁)) :
    Installed s₀ p.dir d addons (⟨id, .unpacked archive⟩ :: done)
      (noteUnpacked s₁ p.dir (join (join p.dir "extensions") id)) := by
  have hreaches := reaches_extensions hready h hextensions
  obtain ⟨hgrows, hdir⟩ := unpack_grows hreaches (IsName.bare_join (by decide) p.dir)
    (hready.ids _ hoffer) (hready.entries _ archive hoffer rfl) hunpack
  refine h.step hoffer hextensions hgrows.files (fun _ => hdir ?_) (fun hpacked => by cases hpacked) ?_
  · rw [Archive.content?, isSome_map] at hcontent
    obtain ⟨e, he⟩ := isSome_iff_exists.1 hcontent
    have hname : e.name = fileName := by simpa using find?_some he
    exact ⟨e, mem_reverse.1 (mem_of_find?_eq_some he), by
      rw [Archive.Entry.isDir, hname]; decide⟩
  · obtain ⟨ids, hids, -⟩ := h.noted
    have hsession : s₁.unpacked = s.unpacked := by rw [hgrows.session]
    simp [noteUnpacked, Assoc.get?_insert, hsession, hids, Addon.isUnpacked]

theorem dir_step (hsource : Source s₀ d q m) (hoffer : Offers s₀.files addons ⟨id, .dir m⟩)
    (hcopy : outcome (copyDir q (join (join p.dir "extensions") id)) s =
      (.ok (), s')) : Installed s₀ p.dir d addons (⟨id, .dir m⟩ :: done) s' := by
  have hreaches := reaches_extensions hready h hextensions
  have hfree₀ : s₀.files.tree.get? (extensionsAt d ++ [id]) = none := hready.free _ hoffer
  obtain ⟨hdir, hnone, rfl⟩ := copyDir_eq (h.grows.here.symm ▸ hready.here)
    (h.grows.locate?_eq hsource.1) (hreaches.locate?_join (hready.ids _ hoffer)) (by simp)
    (fun _ => isSome_get?_take_concat (isSome_get?_take_extensions hready h hextensions))
    hcopy
  have hfree : ∀ way, s.files.tree.get? ((extensionsAt d ++ [id]) ++ way) = none := by
    intro way
    by_cases hway : way = []
    · rw [hway, append_nil, hnone]
    · rw [append_assoc, singleton_append]
      exact h.get?_below_eq_none hready hfree₀ (by rw [isDir, hnone]; rfl) hway
  -- The source is not where the copy goes.
  have hapart : ∀ way, ¬ extensionsAt d ++ [id] = m ++ way := by
    intro way heq
    rcases prefix_concat_iff.1 ⟨way, heq.symm⟩ with rfl | hprefix
    · have hsome := hsource.2.1
      rw [hfree₀] at hsome
      cases hsome
    · exact hsource.2.2 hprefix
  refine h.step hoffer hextensions (.copyAll (by simp) hfree hdir)
    (fun hpacked => by cases hpacked) (fun _ way => ?_) (by simp [Addon.isUnpacked])
  have hcopied := get?_copyAll_put (h.grows.nodup hready.sound.nodup) hdir (by simp)
    hfree hapart way
  rw [h.get?_eq hready hsource.2.1 hsource.2.2, append_assoc, singleton_append] at hcopied
  exact hcopied.trans (Addon.copy_dir _ _ _ _).symm

end Step

/-- **An add-on that is installed changes nothing but its place.** -/
theorem installOne_step (h : Installed s₀ p.dir d addons done s)
    (hextensions : s.files.tree.isDir (extensionsAt d)) {path q : String}
    (hpath : path ∈ addons) (hq : q ∈ addonPaths s₀.files path)
    (hinstall : outcome (p.installOne (join p.dir "extensions") q) s = (.ok (), s')) :
    ∃ a, addonAt? s₀.files q = some a ∧ Installed s₀ p.dir d addons (a :: done) s' := by
  obtain ⟨_, hgiven⟩ := hready.given path hpath
  obtain ⟨m, hsource⟩ := hready.source hgiven hq
  have hoffer : ∀ a, addonAt? s.files q = some a →
      addonAt? s₀.files q = some a ∧ Offers s₀.files addons a := by
    intro a ha
    rw [Installed.addonAt?_eq hready h hsource] at ha
    exact ⟨ha, path, hpath, q, hq, ha⟩
  rcases installOne_cases hinstall with ⟨id, archive, s₁, haddon, hcontent, hunpack, rfl⟩ |
    ⟨id, archive, files, haddon, hwrite, rfl⟩ | ⟨id, source, haddon, hcopy⟩
  · obtain ⟨haddon, hoffer⟩ := hoffer _ haddon
    exact ⟨_, haddon, unpacked_step hready h hextensions hoffer hcontent hunpack⟩
  · obtain ⟨haddon, hoffer⟩ := hoffer _ haddon
    exact ⟨_, haddon, packed_step hready h hextensions hoffer hwrite⟩
  · obtain ⟨haddon, hoffer⟩ := hoffer _ haddon
    obtain rfl := some.inj (hsource.1.symm.trans (locate?_of_addonAt? haddon))
    exact ⟨_, haddon, dir_step hready h hextensions hsource hoffer hcopy⟩

theorem installAll_step {path : String} (hpath : path ∈ addons) {qs : List String}
    (hqs : ∀ q ∈ qs, q ∈ addonPaths s₀.files path) (h : Installed s₀ p.dir d addons done s)
    (hextensions : s.files.tree.isDir (extensionsAt d))
    (hinstall : outcome (qs.forM (p.installOne (join p.dir "extensions"))) s = (.ok (), s')) :
    ∃ done', Installed s₀ p.dir d addons done' s' ∧
      ∀ a, a ∈ done ∨ (∃ q ∈ qs, addonAt? s₀.files q = some a) → a ∈ done' := by
  induction qs generalizing s done with
  | nil =>
    cases hinstall
    exact ⟨done, h, by simp⟩
  | cons q qs ih =>
    obtain ⟨s₁, hone, hrest⟩ := outcome_forM_cons_ok_iff.1 hinstall
    obtain ⟨a, ha, h₁⟩ := installOne_step hready h hextensions hpath (hqs q mem_cons_self) hone
    obtain ⟨done', h', hdone⟩ := ih (fun q hq => hqs q (mem_cons_of_mem _ hq)) h₁
      (h₁.made.resolve_right (by simp)) hrest
    grind

theorem extensions_step (h : Installed s₀ p.dir d addons done s)
    (hensure : outcome (if !s.files.contains (join p.dir "extensions") then
      makeDirs (join p.dir "extensions") else pure ()) s = (.ok (), s')) :
    Installed s₀ p.dir d addons done s' ∧ s'.files.tree.isDir (extensionsAt d) := by
  have hlocate := locate?_extensions hready h
  have hcontains : s.files.contains (join p.dir "extensions") =
      (s.files.tree.get? (extensionsAt d)).isSome := by
    rw [Files.contains, Files.node?, hlocate, bind_some]
  cases hget : s.files.tree.get? (extensionsAt d) with
  | some node =>
    rw [hcontains, hget, if_neg (by simp)] at hensure
    cases hensure
    refine ⟨h, h.made.elim id fun hsame => ?_⟩
    rw [isDir_iff, hget, hready.extensions node (hsame.2.symm.trans hget)]
  | none =>
    rw [hcontains, hget, if_pos (by simp)] at hensure
    obtain ⟨rfl, -⟩ : done = [] ∧ _ := h.made.resolve_left (by
      rw [isDir_iff, hget]
      simp)
    obtain rfl := makeDirs_eq (h.grows.here.symm ▸ hready.here) hlocate
      (fun _ => isSome_get?_take_concat (isSome_get?_take hready h)) hget hensure
    have hput : Grows (extensionsAt d) s.files
        { s.files with tree := s.files.tree.put (extensionsAt d) .dir } :=
      .put prefix_rfl (by simp [extensionsAt]) (by rw [isDir, hget]; rfl) _
    have hmade : (s.files.tree.put (extensionsAt d) .dir).isDir (extensionsAt d) := by
      rw [isDir, get?_put (by simp [extensionsAt]), if_pos rfl]
      rfl
    refine ⟨⟨h.grows.trans hput, .inl hmade, h.offered, fun n hn way => ?_, by simp, by simp,
      h.noted⟩, hmade⟩
    refine Eq.trans ?_ (h.untouched n hn way)
    show (s.files.tree.put _ _).get? _ = _
    rw [get?_put (by simp [extensionsAt]), if_neg (by simp)]

theorem install_step {path : String} (hpath : path ∈ addons)
    (h : Installed s₀ p.dir d addons done s)
    (hinstall : outcome (p.install path) s = (.ok (), s')) :
    ∃ done', Installed s₀ p.dir d addons done' s' ∧
      ∀ a, a ∈ done ∨ Offers s₀.files [path] a → a ∈ done' := by
  obtain ⟨s₁, hensure, hall⟩ := install_cases hinstall
  obtain ⟨h₁, hextensions⟩ := extensions_step hready h hensure
  obtain ⟨m, hsource⟩ := hready.given path hpath
  have hpaths := fun q => Installed.mem_addonPaths hready h₁ hsource (q := q)
  obtain ⟨done', h', hdone⟩ := installAll_step hready hpath (fun q hq => (hpaths q).1 hq) h₁
    hextensions hall
  refine ⟨done', h', fun a ha => hdone a (ha.imp_right ?_)⟩
  rintro ⟨path', hpath', q, hq, haddon⟩
  obtain rfl := mem_singleton.1 hpath'
  exact ⟨q, (hpaths q).2 hq, haddon⟩

/-- **All add-ons that are offered get installed.** -/
theorem installs_run {rest : List String} (hrest : ∀ path ∈ rest, path ∈ addons)
    (h : Installed s₀ p.dir d addons done s)
    (hinstall : outcome (rest.forM p.install) s = (.ok (), s')) :
    ∃ done', Installed s₀ p.dir d addons done' s' ∧
      ∀ a, a ∈ done ∨ Offers s₀.files rest a → a ∈ done' := by
  induction rest generalizing s done with
  | nil =>
    cases hinstall
    exact ⟨done, h, fun a ha => ha.elim id fun ⟨path, hpath, _⟩ => by cases hpath⟩
  | cons path rest ih =>
    obtain ⟨s₁, hone, hmore⟩ := outcome_forM_cons_ok_iff.1 hinstall
    obtain ⟨done₁, h₁, hdone₁⟩ := install_step hready (hrest path mem_cons_self) h hone
    obtain ⟨done₂, h₂, hdone₂⟩ := ih (fun q hq => hrest q (mem_cons_of_mem _ hq)) h₁ hmore
    refine ⟨done₂, h₂, ?_⟩
    rintro a (ha | ⟨path', hpath', hoffer⟩)
    · exact hdone₂ a (.inl (hdone₁ a (.inl ha)))
    · rcases mem_cons.1 hpath' with rfl | hpath'
      · exact hdone₂ a (.inl (hdone₁ a (.inr ⟨path', by simp, hoffer⟩)))
      · exact hdone₂ a (.inr ⟨path', hpath', hoffer⟩)

end Run

end AddonBuilder.Application
