import AddonBuilder.Proofs.Application.Watching
import AddonBuilder.Proofs.Files.Growth

/-!
# What becomes of a new profile

A profile that was made for a run is removed once the application was started, however the run ends
then.
-/

namespace AddonBuilder

open List Session FileTree Path
open AddonBuilder.Path (IsName)

/-! ## Commands that keep what is known of the files -/

section Keeps

variable {α β : Type} {P : Files → Prop}

def Session.Keeps (P : Files → Prop) (c : Command α) : Prop :=
  ∀ s : Session, P s.files → P (outcome c s).2.files

theorem Session.Keeps.bind_outcome {c : Command α} {k : α → Command β} {s : Session}
    (h : Keeps P c) (hs : P s.files)
    (hk : ∀ a s₁, outcome c s = (.ok a, s₁) → P s₁.files → P (outcome (k a) s₁).2.files) :
    P (outcome (c >>= k) s).2.files := by
  have hc := h s hs
  rw [outcome_bind]
  grind

theorem Session.Keeps.bind {c : Command α} {k : α → Command β} (h : Keeps P c)
    (hk : ∀ a, Keeps P (k a)) : Keeps P (c >>= k) :=
  fun _ hs => h.bind_outcome hs fun a s₁ _ => hk a s₁

/-- A command that does not touch the files. -/
theorem Session.Keeps.still {c : Command α} (h : ∀ s, (outcome c s).2.files = s.files) : Keeps P c :=
  fun s hs => (h s).symm ▸ hs

theorem keeps_change {g : Files → Option Files} (h : ∀ f f', P f → g f = some f' → P f') :
    Keeps P (change g) := by
  intro s hs
  cases hg : g s.files with
  | none =>
    rw [change, outcome_bind_ok outcome_currentFiles, hg]
    exact hs
  | some f =>
    rw [outcome_change hg]
    exact h _ _ hs hg

theorem keeps_start (command : List String) : Keeps P (start command) := by
  unfold start start?
  refine .bind (.bind (.still fun _ => rfl) fun _ => .bind (.still fun _ => rfl)
    fun s => ?_) fun o => ?_
  · split <;> exact .still fun _ => rfl
  · cases o <;> exact .still fun _ => rfl

theorem Session.Keeps.forM {c : α → Command Unit} (h : ∀ a, Keeps P (c a)) (l : List α) :
    Keeps P (l.forM c) := by
  induction l with
  | nil => exact .still fun _ => rfl
  | cons a l ih => exact .bind (h a) fun _ => ih

end Keeps

namespace Files

variable {f f' : Files} {path base name : String} {l : Location}

theorem Reaches.write? (h : f.Reaches path l) {q : String} {node : Node}
    (hwrite : f.write? q node = some f') : f'.Reaches path l := by
  obtain ⟨m, -, hne, -, hfile, rfl⟩ := exists_of_write? hwrite
  exact h.grows (.put prefix_rfl hne hfile _)

theorem Reaches.removeFile? (h : f.Reaches path l) {q : String}
    (hremove : f.removeFile? q = some f') : f'.Reaches path l := by
  obtain ⟨m, -, hremove⟩ := Option.bind_eq_some_iff.1 hremove
  have hfile : f.tree.isDir m = false ∧ f' = { f with tree := Assoc.erase f.tree m } := by
    split at hremove
    case h_3 => cases hremove
    all_goals
      rename_i hnode
      cases hremove
      exact ⟨by rw [FileTree.isDir, hnode]; rfl, rfl⟩
  obtain ⟨hfile, rfl⟩ := hfile
  have hmono : ∀ k, f.tree.isDir k → FileTree.isDir (Assoc.erase f.tree m) k := by
    intro k hk
    have hne : m ≠ k := by
      rintro rfl
      rw [hfile] at hk
      cases hk
    rw [← hk, FileTree.isDir, FileTree.isDir, FileTree.get?, FileTree.get?,
      Assoc.get?_erase_of_ne hne]
  exact ⟨locate?_mono hmono h.1, hmono l h.2⟩

/-- A path that ends in a name leads to no directory once this is removed. -/
theorem isDir_of_removeDir? (hbase : base.isEmpty = false) (hname : IsName name) :
    ((f.removeDir? (join base name)).getD f).isDir (join base name) =
      false := by
  cases hl : f.tree.locate? f.here (join base name) with
  | none => simp [removeDir?, isDir, node?, hl]
  | some l =>
    have hne : l ≠ [] := by
      rw [locate?_join hbase hname] at hl
      obtain ⟨d, -, hd⟩ := Option.bind_eq_some_iff.1 hl
      simp [walk?_plain (by simpa using hname.1) hd]
    cases hdir : f.tree.isDir l with
    | false =>
      have hnone : f.removeDir? (join base name) = none := by
        simp [removeDir?, hl, hdir]
      simpa [hnone, isDir, node?, hl, FileTree.isDir] using hdir
    | true =>
      have hsome : f.removeDir? (join base name) = some { f with tree := f.tree.removeAll l } := by
        simp [removeDir?, hl, hdir, hne]
      have hmono : ∀ k, (f.tree.removeAll l).isDir k → f.tree.isDir k := by
        intro k hk
        rw [FileTree.isDir, FileTree.get?_removeAll hne] at hk
        split at hk
        · cases hk
        · exact hk
      rw [hsome, Option.getD_some, isDir, node?]
      cases hl' : (f.tree.removeAll l).locate? f.here (join base name) with
      | none => rfl
      | some l' =>
        obtain rfl := Option.some.inj (hl.symm.trans (locate?_mono hmono hl'))
        simp [get?_removeAll hne]

end Files

namespace Application

open Run

variable {r : Run} {p : Product} {profile : Profile} {runner : Runner} {places : Places}
  {s t : Session} {began : Binary64} {archive base name : String} {args : List String}
  {l : Location} {P : Files → Prop}

/-! ## After the start -/

theorem exists_clean (hnew : profile.isNew)
    (hdir : profile.dir = join base name) (hbase : base.isEmpty = false)
    (hname : IsName name) (s : Session) :
    ∃ u, outcome profile.clean s = (.ok (), u) ∧ u.files.isDir profile.dir = false := by
  have hgone := Files.isDir_of_removeDir? (f := s.files) hbase hname
  rw [Profile.clean, if_pos hnew, outcome_bind_ok outcome_currentFiles, hdir]
  cases hremove : s.files.removeDir? (join base name) with
  | none =>
    rw [hremove] at hgone
    exact ⟨_, rfl, hgone⟩
  | some f =>
    rw [hremove] at hgone
    exact ⟨_, rfl, hgone⟩

theorem keeps_report (start : Binary64) (result : String) : Keeps P (report start result) := by
  intro s hs
  by_cases h : result = "OK"
  · simp only [report, h, if_true]
    exact hs
  · simp only [report, h, if_false]
    exact hs

theorem keeps_showDeviceLog (verbose : Bool) (lines : List (List Char)) :
    Keeps P (showDeviceLog verbose lines) := by
  induction lines with
  | nil => exact .still fun _ => rfl
  | cons line rest ih =>
    have hprint : ∀ t, Keeps P (print t) := fun t => .still fun _ => rfl
    unfold showDeviceLog
    dsimp only
    split
    · exact .still fun _ => rfl
    · split
      · split <;> exact .bind (hprint _) fun _ => ih
      · split
        · exact .bind (hprint _) fun _ => ih
        · exact ih

section Removes

variable (hnew : profile.isNew) (hdir : profile.dir = join base name)
  (hbase : base.isEmpty = false) (hname : IsName name)

include hnew hdir hbase hname

theorem supervise_removes (s : Session) :
    (outcome (r.supervise runner profile places began >>= report began) s).2.files.isDir
      profile.dir = false := by
  obtain ⟨u, hclean, hgone⟩ := exists_clean hnew hdir hbase hname _
  have hsupervise : (outcome (r.supervise runner profile places began) s).2 = u := by
    rw [outcome_supervise (Prod.eta _).symm (Prod.eta _).symm, outcome_bind_ok hclean]
    rfl
  rw [outcome_bind]
  rcases hrun : outcome (r.supervise runner profile places began) s with ⟨_ | result, s₁⟩ <;>
    rw [hrun] at hsupervise <;> obtain rfl := hsupervise
  · exact hgone
  · exact keeps_report (P := (·.isDir profile.dir = false)) began result s₁ hgone

theorem onDevice_removes (hlaunch : outcome (do
      let _ ← Session.start [runner.binary, "logcat", "-c"]
      runner.launch) s = (.ok (), t)) :
    (outcome (r.onDevice runner profile) s).2.files.isDir profile.dir = false := by
  obtain ⟨x, s₁, hstart, hlaunch⟩ := outcome_bind_ok_iff.1 hlaunch
  obtain ⟨u, hclean, hgone⟩ := exists_clean hnew hdir hbase hname t
  rw [onDevice, outcome_bind_ok hstart, outcome_bind_ok hlaunch, outcome_bind_ok hclean]
  have hshow : ∀ x : String × Int, Keeps (·.isDir profile.dir = false) (do
      showDeviceLog r.verbose (Text.cutAfterLineFeed x.1.toList)
      printError "Program terminated successfully."
      return (0 : Int)) :=
    fun _ => .bind (keeps_showDeviceLog _ _) fun _ => .still fun _ => rfl
  exact Keeps.bind (keeps_start _) hshow u hgone

end Removes

/-- The application is started: nothing fails before, and its version is accepted. -/
def Run.Launches (r : Run) (p : Product) (archive : String) (profile : Profile)
    (args : List String) (s : Session) : Prop :=
  ∃ runner s₁ t, outcome (r.prepare p archive profile args) s = (.ok runner, s₁) ∧
    if p = .fennec then
      outcome (do
        let _ ← Session.start [runner.binary, "logcat", "-c"]
        runner.launch) s₁ = (.ok (), t)
    else r.Begins runner profile s₁ t

theorem keeps_existing (binary : String) : Keeps P (existing binary) := by
  refine .bind (.still fun _ => rfl) fun f => ?_
  split <;> exact .still fun _ => rfl

theorem keeps_findBinary (p : Product) : Keeps P (findBinary p) := by
  refine .bind (.still fun _ => rfl) fun s => ?_
  dsimp only
  split
  · exact .still fun _ => rfl
  · split <;> exact .still fun _ => rfl

theorem keeps_desktopRunner (binary : Option String) (dir : String) :
    Keeps P (desktopRunner p binary dir args) := by
  refine .bind (.bind (.still fun _ => rfl) fun s => ?_) fun _ => .still fun _ => rfl
  split
  · exact .bind (keeps_findBinary p) fun _ => keeps_existing _
  · split
    · split
      · exact keeps_existing _
      · exact .still fun _ => rfl
    · exact keeps_existing _

theorem keeps_ownApplicationRunner (binary : Option String) (dir : String) :
    Keeps P (ownApplicationRunner binary dir args) := by
  refine .bind (.still fun _ => rfl) fun s => ?_
  dsimp only
  split
  case' h_2 => refine .bind (keeps_findBinary _) fun _ => .bind (keeps_existing _) fun _ => ?_
  all_goals
    refine .bind (.still fun _ => rfl) fun _ => .bind (keeps_existing _) fun _ => ?_
    split
    · exact .still fun _ => rfl
    · refine .bind (.still fun _ => rfl) fun _ => ?_
      split <;> exact .still fun _ => rfl

theorem keeps_writeBytes {path : String} (q : String) (bytes : Bytes) :
    Keeps (·.Reaches path l) (writeBytes q bytes) :=
  keeps_change fun _ _ h => h.write?

/-- Directories stay while a command sleeps. -/
theorem keeps_sleep {path : String} (seconds : Binary64) :
    Keeps (·.Reaches path l) (sleep seconds) := by
  have hwrite : ∀ {write : String → Bytes → Command Unit},
      (∀ q bytes, Keeps (·.Reaches path l) (write q bytes)) →
      ∀ q more, Keeps (·.Reaches path l) (writeAt write q more) := by
    intro write h q more
    cases q <;> cases more
    case some.some => exact h _ _
    all_goals exact .still fun _ => rfl
  have happend : ∀ q bytes, Keeps (·.Reaches path l) (append q bytes) := fun q bytes =>
    .bind (.still fun _ => rfl) fun _ => keeps_writeBytes _ _
  refine .bind (.still fun _ => rfl) fun _ => .bind (.still fun _ => rfl) fun s => ?_
  cases s.events with
  | nil => exact .still fun _ => rfl
  | cons e rest =>
    have hwritten : Keeps (·.Reaches path l) (do
        let w := (← get).watched
        writeAt append w.log e.log
        writeAt append w.out e.out
        writeAt writeBytes w.result e.result) :=
      .bind (.still fun _ => rfl) fun _ => .bind (hwrite happend _ _) fun _ =>
        .bind (hwrite happend _ _) fun _ => hwrite keeps_writeBytes _ _
    refine .bind (.still fun _ => rfl) fun _ => ?_
    unfold happen
    split
    · exact .bind (.still fun _ => rfl) fun _ => hwritten
    · exact hwritten

theorem keeps_push (bridge dir : String) : Keeps P (push bridge dir) := by
  refine .bind (.still fun _ => rfl) fun f => .forM (fun v => ?_) _
  refine .bind (.forM (fun n => ?_) _) fun _ => .forM (fun n => ?_) _
  · exact .bind (keeps_start _) fun _ => .still fun _ => rfl
  · exact .bind (keeps_start _) fun _ => .still fun _ => rfl

theorem keeps_runsOnDevice (bridge name : String) : Keeps P (runsOnDevice bridge name) := by
  have hsearch : ∀ lines, Keeps P (runsOnDevice.search name lines) := by
    intro lines
    induction lines with
    | nil => exact .still fun _ => rfl
    | cons columns rest ih =>
      unfold runsOnDevice.search
      split
      · split
        · exact .still fun _ => rfl
        · exact ih
      · exact .still fun _ => rfl
  exact .bind (keeps_start _) fun _ => hsearch _

theorem keeps_deviceRunner {path : String} (bridge : Option String) (dir : String) :
    Keeps (·.Reaches path l) (deviceRunner bridge dir args) := by
  have hshell : ∀ bridge command : String, Keeps (·.Reaches path l) (do
      let _ ← start [bridge, "shell", command]
      return ()) := fun _ _ => .bind (keeps_start _) fun _ => .still fun _ => rfl
  have hpkgs : ∀ bridge, Keeps (·.Reaches path l) (packagesOnDevice bridge) := fun _ =>
    .bind (keeps_start _) fun _ => .still fun _ => rfl
  have hchosen : ∀ wanted found, Keeps (·.Reaches path l) (chooseApplication wanted found) := by
    intro wanted found
    cases found with
    | nil => exact .still fun _ => rfl
    | cons first rest =>
      unfold chooseApplication
      dsimp only
      split
      · exact .still fun _ => rfl
      · split <;> exact .still fun _ => rfl
  unfold deviceRunner
  split
  · refine .bind (keeps_start _) fun told => ?_
    dsimp only
    split
    · exact .still fun _ => rfl
    · refine .bind ?_ fun wanted => .bind (hshell _ _) fun _ => .bind (hpkgs _) fun _ =>
        .bind (hchosen _ _) fun _ => .bind (.still fun _ => rfl) fun _ =>
        .bind (keeps_runsOnDevice _ _) fun running => ?_
      · cases args.head? <;> exact .still fun _ => rfl
      · split
        case' isTrue =>
          refine .bind (.still fun _ => rfl) fun _ => .bind (hshell _ _) fun _ =>
            .bind (keeps_sleep _) fun _ => ?_
        all_goals
          exact .bind (.still fun _ => rfl) fun _ => .bind (hshell _ _) fun _ =>
            .bind (hshell _ _) fun _ => .bind (keeps_push _ _) fun _ => .still fun _ => rfl
  · exact .still fun _ => rfl

/-- Making the application ready keeps directories, unless modules are copied into the profile for a
device. -/
theorem keeps_prepare (hpaths : p = .fennec → r.modulePaths = []) {path : String} :
    Keeps (·.Reaches path l) (r.prepare p archive profile args) := by
  have hrunner : Keeps (·.Reaches path l) (runnerFor p r.binary profile.dir args) := by
    unfold runnerFor
    split
    · exact keeps_deviceRunner _ _
    · exact keeps_ownApplicationRunner _ _
    · exact keeps_desktopRunner _ _
  refine .bind (keeps_change fun _ _ h => h.removeFile?) fun _ => ?_
  split
  · rename_i hp
    rw [hpaths hp]
    exact .bind (.still fun _ => rfl) fun _ => hrunner
  · exact hrunner

theorem keeps_addSettings {path : String} (settings : Settings) :
    Keeps (·.Reaches path l) (profile.addSettings settings) := by
  refine .bind (.still fun _ => rfl) fun f => .bind (keeps_writeBytes _ _) fun _ => ?_
  split
  · exact .still fun _ => rfl
  · refine .bind ?_ fun _ => keeps_writeBytes _ _
    cases Codec.encodeUtf8? _ <;> exact .still fun _ => rfl

theorem keeps_accept {path output : String} :
    Keeps (·.Reaches path l) (r.accept profile output) := by
  unfold accept
  split
  · exact .still fun _ => rfl
  · dsimp only
    split
    · split <;> exact .still fun _ => rfl
    · split
      · exact .still fun _ => rfl
      · split
        · exact .bind (keeps_addSettings _) fun _ => .still fun _ => rfl
        · exact .still fun _ => rfl

theorem keeps_outputOf (command : List String) : Keeps P (outputOf command) := by
  refine .bind (keeps_start command) fun x => ?_
  dsimp only
  split <;> exact .still fun _ => rfl

/-- **A run that does not start the application leaves the profile.** -/
theorem onDesktop_leaves {path : String} (hshow : r.showOnly = false)
    (hnot : ∀ t, ¬ r.Begins runner profile s t) (h : s.files.Reaches path l) :
    (outcome (r.onDesktop runner profile places began) s).2.files.Reaches path l := by
  have htold : ∀ t, Keeps (·.Reaches path l) (printError t) := fun t => .still fun _ => rfl
  have houtput : ∀ c, Keeps (·.Reaches path l) (outputOf c) := keeps_outputOf
  have hlaunched : Keeps (·.Reaches path l) runner.launch :=
    .bind (keeps_start _) fun _ => .still fun _ => rfl
  refine (htold _).bind_outcome h fun _ s₁ hbinary h => (houtput _).bind_outcome h
    fun version s₂ hversion h => keeps_accept.bind_outcome h fun accepted s₃ haccept h => ?_
  cases accepted with
  | false => exact h
  | true =>
    simp only [Bool.not_true, Bool.false_eq_true, if_false, hshow]
    refine (htold _).bind_outcome h fun _ s₄ hprofile h => hlaunched.bind_outcome h
      fun _ t hlaunch _ => absurd ?_ (hnot t)
    exact ⟨hshow, version, s₂, s₃, outcome_bind_ok_iff.2 ⟨_, _, hbinary, hversion⟩, haccept,
      outcome_bind_ok_iff.2 ⟨_, _, hprofile, hlaunch⟩⟩

theorem exists_reaches_iff {f : Files} {path : String} :
    (∃ l, f.Reaches path l) ↔ f.isDir path := by
  rw [Files.isDir, Files.node?]
  cases h : f.tree.locate? f.here path <;> simp [Files.Reaches, isDir, h]

/-- **A run on a device that does not start the application leaves the profile.** -/
theorem onDevice_leaves {path : String} (h : s.files.Reaches path l)
    (hnot : ∀ t, outcome (do
      let _ ← Session.start [runner.binary, "logcat", "-c"]
      runner.launch) s ≠ (.ok (), t)) :
    (outcome (r.onDevice runner profile) s).2.files.Reaches path l := by
  have hlaunched : Keeps (·.Reaches path l) runner.launch :=
    .bind (keeps_start _) fun _ => .still fun _ => rfl
  have hcleared := keeps_start (P := (·.Reaches path l)) [runner.binary, "logcat", "-c"]
  refine hcleared.bind_outcome h fun _ s₁ hstart h => hlaunched.bind_outcome h
    fun _ t hlaunch _ => absurd ?_ (hnot t)
  exact outcome_bind_ok_iff.2 ⟨_, _, hstart, hlaunch⟩

/-- The names of temporary directories. -/
theorem isName_temporary (n : Nat) : IsName ("tmp" ++ toString n ++ ".mozrunner") := by
  have hlen : ∀ m : String, m.length < 3 → "tmp" ++ toString n ++ ".mozrunner" ≠ m := by
    rintro m hm rfl
    have : "tmp".length = 3 := rfl
    simp only [String.length_append] at hm
    omega
  refine ⟨⟨hlen _ (by decide), hlen _ (by decide), hlen _ (by decide)⟩, ?_⟩
  have hdigits : '/' ∉ (toString n).toList := by
    intro hmem
    have := Nat.isDigit_of_mem_toDigits (by decide) (by decide)
      (show '/' ∈ Nat.toDigits 10 n by simpa using hmem)
    exact absurd this (by decide)
  simpa using hdigits

/-- **A profile that is made for a run is new**, and is a directory among the temporary ones. -/
theorem create_new {own given : Settings} {dir : Option String} {addons : List String}
    (hnone : dir.filter (· ≠ "") = none)
    (h : outcome (Profile.create own dir addons given) s = (.ok profile, t)) :
    profile.isNew = true ∧ ∃ name, profile.dir = join s.temporary name ∧ IsName name := by
  unfold Profile.create at h
  rw [hnone] at h
  obtain ⟨path, s₁, hpath, h⟩ := outcome_bind_ok_iff.1 h
  obtain ⟨name, s₂, hname, hpath⟩ := outcome_bind_ok_iff.1 hpath
  obtain ⟨_, s₃, -, hpath⟩ := outcome_bind_ok_iff.1 hpath
  obtain ⟨made, s₄, hmade, h⟩ := outcome_bind_ok_iff.1 h
  obtain ⟨_, s₅, -, h⟩ := outcome_bind_ok_iff.1 h
  obtain ⟨_, s₆, -, h⟩ := outcome_bind_ok_iff.1 h
  obtain ⟨_, s₇, -, h⟩ := outcome_bind_ok_iff.1 h
  cases h
  cases hmade
  cases hpath
  cases hname
  exact ⟨rfl, _, rfl, isName_temporary _⟩

/-- **A new profile is removed once the application was started**, on this computer or on a device,
whatever happens then; it stays if the run ends before, on a device as long as no modules were
copied into the profile. -/
theorem withProfile_removes (hnew : profile.isNew = true)
    (hdir : profile.dir = Path.join base name) (hbase : base.isEmpty = false)
    (hname : IsName name) (hshow : r.showOnly = false) :
    (r.Launches p archive profile args s →
      (outcome (r.withProfile p archive profile args places began) s).2.files.isDir
        profile.dir = false) ∧
    ((p = .fennec → r.modulePaths = []) → s.files.isDir profile.dir = true →
      ¬ r.Launches p archive profile args s →
      (outcome (r.withProfile p archive profile args places began) s).2.files.isDir
        profile.dir = true) := by
  constructor
  · rintro ⟨runner, s₁, t, hprepare, hlaunch⟩
    rw [withProfile, outcome_bind_ok hprepare]
    by_cases hp : p = .fennec
    · rw [if_pos hp] at hlaunch ⊢
      have hgone := onDevice_removes (r := r) hnew hdir hbase hname hlaunch
      rw [outcome_bind]
      rcases hrun : outcome (r.onDevice runner profile) s₁ with ⟨_ | code, u⟩ <;>
        rw [hrun] at hgone <;> exact hgone
    · rw [if_neg hp] at hlaunch ⊢
      rw [onDesktop_of_begins hlaunch]
      exact supervise_removes hnew hdir hbase hname t
  · intro hpaths hthere hnot
    obtain ⟨l, hl⟩ := exists_reaches_iff.2 hthere
    refine exists_reaches_iff.1
      ⟨l, (keeps_prepare hpaths).bind_outcome hl fun runner s₁ hprepare h => ?_⟩
    by_cases hp : p = .fennec
    · rw [if_pos hp, outcome_bind]
      have hkept : (outcome (r.onDevice runner profile) s₁).2.files.Reaches profile.dir l :=
        onDevice_leaves h fun t ht => hnot ⟨runner, s₁, t, hprepare, by rwa [if_pos hp]⟩
      rcases hrun : outcome (r.onDevice runner profile) s₁ with ⟨_ | code, u⟩ <;>
        rw [hrun] at hkept <;> exact hkept
    · rw [if_neg hp]
      exact onDesktop_leaves hshow (fun t ht => hnot ⟨runner, s₁, t, hprepare, by rwa [if_neg hp]⟩) h

def desktopFiles (more : FileTree) : Files :=
  { tree := (["app"], .file []) :: (["t"], .dir) :: (["t", "p"], .dir) :: more }

/-- An application and a profile, and what programs answer. -/
def desktopSession (programs : List (String × Outcome)) (more : FileTree) : Session :=
  { files := desktopFiles more, programs, platform := "linux2" }

/-- A run of the application `/app`. -/
def desktopRun : Run := { limitedRun with binary := some "/app" }

theorem prepare_desktop (programs : List (String × Outcome)) :
    outcome (desktopRun.prepare .firefox "/a.xpi" ⟨"/t/p", true, []⟩ [])
      (desktopSession programs [(["a.xpi"], .file [])]) =
    (.ok ⟨"/app", Product.names? "linux2" .firefox, ["/app", "-profile", "/t/p"], some []⟩,
      desktopSession programs []) := by
  have hremove : (desktopFiles [(["a.xpi"], .file [])]).removeFile? "/a.xpi" =
      some (desktopFiles []) := by rfl
  rw [prepare, outcome_bind_ok (outcome_change hremove), if_neg (by decide)]
  rfl

/-- A profile that was made for the run is gone after it. -/
theorem withProfile_removes_desktop :
    (outcome (desktopRun.withProfile .firefox "/a.xpi" ⟨"/t/p", true, []⟩ [] rootPlaces
      (.zero false)) (desktopSession [] [(["a.xpi"], .file [])])).2.files.isDir "/t/p" =
        false := by
  have hdir : (⟨"/t/p", true, []⟩ : Profile).dir = Path.join "/t" "p" := by decide
  have hbegins : ∃ t, desktopRun.Begins
      ⟨"/app", Product.names? "linux2" .firefox, ["/app", "-profile", "/t/p"], some []⟩
      ⟨"/t/p", true, []⟩ (desktopSession [] []) t := ⟨_, rfl, _, _, _, rfl, rfl, rfl⟩
  obtain ⟨t, ht⟩ := hbegins
  exact (withProfile_removes rfl hdir (by decide) (by decide) rfl).1
    ⟨_, _, t, prepare_desktop [], by rwa [if_neg (by decide)]⟩

/-- **An application that is too old leaves the profile.** -/
theorem old_version_leaves : ∃ s',
    outcome (desktopRun.withProfile .firefox "/a.xpi" ⟨"/t/p", true, []⟩ [] rootPlaces
      (.zero false)) (desktopSession [("-v", .finished "Mozilla Firefox 3.6" 0)]
        [(["a.xpi"], .file [])]) =
        (.ok none, s') ∧ s'.files.isDir "/t/p" = true := by
  rw [withProfile, outcome_bind_ok (prepare_desktop _), if_neg (by decide)]
  exact ⟨_, rfl, by decide⟩

end Application

end AddonBuilder
