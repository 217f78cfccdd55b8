import AddonBuilder.Proofs.Package.Loaded

/-!
# Directories that are searched for packages

The directories that are searched are the least set that holds those with which a search starts and
every directory named by a held package that lies in this set (`Searched`).
-/

namespace AddonBuilder.Package

open Assoc Search

variable {files : Files} {start paths done : List String} {pkgs pkgs' : Packages}
  {owner key : Text} {target cfg : Config} {dir path : String} {s s' : Search}

/-! ### What is to be found -/

/-- A package lies in a directory: the directory itself if it has a description, and otherwise each
directory in it whose name does not start with a dot. -/
inductive LiesIn (files : Files) (dir : String) : String → Prop
  | itself (h : files.contains (Path.join dir manifestName) = true) : LiesIn files dir dir
  | inside {names : List String} {n : String}
      (h : files.contains (Path.join dir manifestName) = false)
      (hnames : files.list? dir = some names) (hn : n ∈ names)
      (hdot : Text.beginsWith n "." = false)
      (hdir : files.isDir (Path.join dir n) = true) :
      LiesIn files dir (Path.join dir n)

theorem mem_packagePaths_iff (h : packagePaths files dir = .ok paths) :
    path ∈ paths ↔ LiesIn files dir path := by
  unfold packagePaths at h
  split at h
  · rename_i hmanifest
    obtain rfl := Except.ok.inj h
    rw [List.mem_singleton]
    constructor
    · rintro rfl
      exact .itself hmanifest
    · intro hlies
      cases hlies with
      | itself => rfl
      | inside hnone =>
        rw [hnone] at hmanifest
        cases hmanifest
  · rename_i hmanifest
    rw [Bool.not_eq_true] at hmanifest
    split at h
    · cases h
    · rename_i names hnames
      obtain rfl := Except.ok.inj h
      simp only [List.mem_filter, List.mem_map, Bool.not_eq_true']
      constructor
      · rintro ⟨⟨n, ⟨hn, hdot⟩, rfl⟩, hdir⟩
        exact .inside hmanifest hnames hn hdot hdir
      · intro hlies
        cases hlies with
        | itself hsome =>
          rw [hsome] at hmanifest
          cases hmanifest
        | inside _ hnames' hn hdot hdir =>
          grind

/-- The directories that are searched, given the packages that are held. -/
inductive Searched (files : Files) (start : List String) (pkgs : Packages) : String → Prop
  | start {dir : String} (h : dir ∈ start) : Searched files start pkgs dir
  | named {dir path further : String} {cfg : Config} {key : Text} {more : List String}
      (hdir : Searched files start pkgs dir) (hpath : LiesIn files dir path)
      (hload : load files path = .ok cfg) (hheld : get? pkgs key = some cfg)
      (hmore : packageDirs cfg = .ok more) (hfurther : further ∈ more) :
      Searched files start pkgs further

/-- A package is found in a directory that is searched. -/
structure Found (files : Files) (start : List String) (pkgs : Packages) (path : String)
    (cfg : Config) (key : Text) : Prop where
  place : ∃ dir, Searched files start pkgs dir ∧ LiesIn files dir path
  load : load files path = .ok cfg
  name : name cfg = .ok key

/-- Two paths stand for one directory. -/
def SameDir (files : Files) (a b : String) : Prop :=
  a = b ∨ ∃ l, files.tree.locate? files.here a = some l ∧ files.tree.locate? files.here b = some l

theorem SameDir.symm {a b : String} (h : SameDir files a b) : SameDir files b a := by
  rcases h with rfl | ⟨l, ha, hb⟩
  · exact .inl rfl
  · exact .inr ⟨l, hb, ha⟩

theorem SameDir.trans {a b c : String} (h : SameDir files a b)
    (h' : SameDir files b c) : SameDir files a c := by
  rcases h with rfl | ⟨l, ha, hb⟩
  · exact h'
  · rcases h' with rfl | ⟨m, hb', hc⟩
    · exact .inr ⟨l, ha, hb⟩
    · obtain rfl := Option.some.inj (hb.symm.trans hb')
      exact .inr ⟨l, ha, hc⟩

theorem sameDir_of_sameFile {a b : String} (h : sameFile files a b = .ok true) :
    SameDir files a b := by
  unfold sameFile at h
  split at h
  · rename_i l m hl hm
    split at h
    · obtain rfl : l = m := by simpa using h
      exact .inr ⟨l, hl, hm⟩
    · cases h
  · cases h

/-- The package at a path is readable, and under its name a package in the same directory is held. -/
def Held (files : Files) (pkgs : Packages) (path : String) : Prop :=
  ∃ cfg key other place, load files path = .ok cfg ∧ name cfg = .ok key ∧
    get? pkgs key = some other ∧ rootDir other = .ok place ∧
    SameDir files place path

/-! ### More packages -/

/-- What one map holds the other holds as well. -/
def Within (pkgs pkgs' : Packages) : Prop :=
  ∀ key cfg, get? pkgs key = some cfg → get? pkgs' key = some cfg

theorem Within.refl (pkgs : Packages) : Within pkgs pkgs := fun _ _ => id

theorem Within.trans {pkgs'' : Packages} (h : Within pkgs pkgs')
    (h' : Within pkgs' pkgs'') : Within pkgs pkgs'' := fun key cfg hget =>
  h' key cfg (h key cfg hget)

theorem within_insert (hkey : get? pkgs key = none) (cfg : Config) :
    Within pkgs (insert pkgs key cfg) := by
  intro key' cfg' hget
  rw [get?_insert, if_neg, hget]
  rintro rfl
  rw [hkey] at hget
  cases hget

theorem Searched.mono (h : Searched files start pkgs dir)
    (hwithin : Within pkgs pkgs') : Searched files start pkgs' dir := by
  induction h with
  | start h => exact .start h
  | named _ hpath hload hheld hmore hfurther ih =>
    exact .named ih hpath hload (hwithin _ _ hheld) hmore hfurther

theorem Found.mono (h : Found files start pkgs path cfg key)
    (hwithin : Within pkgs pkgs') : Found files start pkgs' path cfg key := by
  obtain ⟨dir, hdir, hpath⟩ := h.place
  exact ⟨⟨dir, hdir.mono hwithin, hpath⟩, h.load, h.name⟩

theorem Held.mono (h : Held files pkgs path) (hwithin : Within pkgs pkgs') :
    Held files pkgs' path := by
  obtain ⟨cfg, key, other, place, hload, hname, hget, hplace, hsame⟩ := h
  exact ⟨cfg, key, other, place, hload, hname, hwithin _ _ hget, hplace, hsame⟩

/-! ### Adding packages -/

/-- Adding a package finds one of its name in the same directory, or adds it with its directories. -/
theorem Search.add_cases (h : s.add files path = .ok s') :
    ∃ cfg key, load files path = .ok cfg ∧ name cfg = .ok key ∧
      ((∃ other place, get? s.found key = some other ∧ rootDir other = .ok place ∧
          SameDir files place path ∧ s' = s) ∨
        get? s.found key = none ∧ ∃ more, packageDirs cfg = .ok more ∧
          s' = ⟨insert s.found key cfg, more.reverse ++ s.pending⟩) := by
  unfold add at h
  obtain ⟨cfg, hload, h⟩ := bind_ok_iff.1 h
  obtain ⟨key, hname, h⟩ := bind_ok_iff.1 h
  refine ⟨cfg, key, hload, hname, ?_⟩
  split at h
  · rename_i other hother
    obtain ⟨place, hplace, h⟩ := bind_ok_iff.1 h
    obtain ⟨same, hsame, h⟩ := bind_ok_iff.1 h
    split at h
    · rename_i htrue
      obtain rfl := htrue
      obtain rfl := pure_ok_iff.1 h
      exact .inl ⟨other, place, hother, hplace, sameDir_of_sameFile hsame, rfl⟩
    · cases h
  · rename_i hnone
    obtain ⟨more, hmore, h⟩ := bind_ok_iff.1 h
    obtain rfl := pure_ok_iff.1 h
    exact .inr ⟨hnone, more, hmore, rfl⟩

/-- What holds of a search that has taken up the directories `done`. -/
structure Search.Valid (files : Files) (start : List String) (owner : Text) (target : Config)
    (done : List String) (s : Search) : Prop where
  own : ∀ more, packageDirs target = .ok more → ∀ dir ∈ more, dir ∈ start
  distinct : (keys s.found).Nodup
  held : get? s.found owner = some target
  found : ∀ key cfg, get? s.found key = some cfg →
    key = owner ∧ cfg = target ∨ ∃ path, Found files start s.found path cfg key
  searched : ∀ dir, Searched files start s.found dir ↔ dir ∈ s.pending ∨ dir ∈ done
  /-- Each package but the target adds at most one directory. -/
  length : done.length + s.pending.length + 1 ≤ start.length + s.found.length

namespace Search.Valid

/-- A held package names no directory that is not searched. -/
theorem searched_of_held (h : s.Valid files start owner target done)
    (hheld : get? s.found key = some cfg) {more : List String}
    (hmore : packageDirs cfg = .ok more) {further : String} (hfurther : further ∈ more) :
    Searched files start s.found further := by
  rcases h.found key cfg hheld with ⟨-, rfl⟩ | ⟨path, hfound⟩
  · exact .start (h.own more hmore further hfurther)
  · obtain ⟨dir, hdir, hpath⟩ := hfound.place
    exact .named hdir hpath hfound.load hheld hmore hfurther

/-- With one more package, the directories that it names are searched, and no others are new. -/
theorem searched_insert (h : s.Valid files start owner target done)
    {more : List String} (hmore : packageDirs cfg = .ok more)
    (hsearched : Searched files start (insert s.found key cfg) dir) :
    Searched files start s.found dir ∨ dir ∈ more := by
  cases hsearched with
  | start hstart => exact .inl (.start hstart)
  | named _ _ _ hheld hmore' hfurther =>
    rw [get?_insert] at hheld
    split at hheld
    · grind
    · exact .inl (h.searched_of_held hheld hmore' hfurther)

/-- **What adding a package preserves**, and the package is held from then on. -/
theorem add (h : s.Valid files start owner target done) (hdir : dir ∈ done)
    (hpath : LiesIn files dir path) (hadd : s.add files path = .ok s') :
    s'.Valid files start owner target done ∧ Within s.found s'.found ∧
      Held files s'.found path := by
  obtain ⟨cfg, key, hload, hname, ⟨other, place, hother, hplace, hsame, rfl⟩ |
    ⟨hnone, more, hmore, rfl⟩⟩ := add_cases hadd
  · exact ⟨h, .refl _, cfg, key, other, place, hload, hname, hother, hplace, hsame⟩
  have hloaded := loaded_of_load hload
  have hwithin := within_insert hnone cfg
  have hself : get? (insert s.found key cfg) key = some cfg := by
    rw [get?_insert, if_pos rfl]
  have hsearched : Searched files start (insert s.found key cfg) dir :=
    ((h.searched dir).2 (.inr hdir)).mono hwithin
  refine ⟨⟨h.own, nodup_insert h.distinct key cfg, hwithin _ _ h.held, ?_, ?_, ?_⟩, hwithin,
    cfg, key, cfg, path, hload, hname, hself, hloaded.rootDir_eq, .inl rfl⟩
  · intro key' cfg' hget
    rw [get?_insert] at hget
    split at hget
    · rename_i hkey
      obtain rfl := Option.some.inj hget
      exact .inr ⟨path, ⟨dir, hsearched, hpath⟩, hload, hkey ▸ hname⟩
    · rcases h.found key' cfg' hget with htarget | ⟨path', hfound⟩
      · exact .inl htarget
      · exact .inr ⟨path', hfound.mono hwithin⟩
  · intro further
    rw [List.mem_append, List.mem_reverse, or_assoc, ← h.searched further]
    constructor
    · exact fun hfurther => (h.searched_insert hmore hfurther).symm
    · rintro (hfurther | hfurther)
      · exact .named hsearched hpath hload hself hmore hfurther
      · exact hfurther.mono hwithin
  · have hone : more.length ≤ 1 := by
      rcases hloaded.packageDirs_cases hmore with rfl | ⟨place, rfl⟩ <;> simp
    have hlen := h.length
    rw [insert_of_not_mem ((get?_eq_none_iff _ _).1 hnone)]
    simp only [List.length_append, List.length_reverse, List.length_singleton]
    omega

theorem addAll (h : s.Valid files start owner target done) (hdir : dir ∈ done)
    (hpaths : ∀ path ∈ paths, LiesIn files dir path)
    (hadd : paths.foldlM (Search.add files) s = .ok s') :
    s'.Valid files start owner target done ∧ Within s.found s'.found ∧
      ∀ path ∈ paths, Held files s'.found path := by
  induction paths generalizing s with
  | nil =>
    obtain rfl := pure_ok_iff.1 hadd
    exact ⟨h, .refl _, List.forall_mem_nil _⟩
  | cons path paths ih =>
    rw [List.foldlM_cons] at hadd
    obtain ⟨next, hnext, hadd⟩ := bind_ok_iff.1 hadd
    obtain ⟨hvalid, hwithin, hheld⟩ := h.add hdir (hpaths path List.mem_cons_self) hnext
    obtain ⟨hvalid', hwithin', hheld'⟩ :=
      ih hvalid (fun p hp => hpaths p (List.mem_cons_of_mem _ hp)) hadd
    exact ⟨hvalid', hwithin.trans hwithin', List.forall_mem_cons.2 ⟨hheld.mono hwithin', hheld'⟩⟩

end Search.Valid

/-! ### Working directories off -/

/-- Takes up a directory: its packages are added to a search. -/
def Search.visit (files : Files) (s : Search) (dir : String) : Except Fault Search := do
  (← packagePaths files dir).foldlM (add files) s

/-- A search takes up directories one after another, the next pending one each time. -/
inductive Search.Steps (files : Files) : Nat → Search → Search → Prop
  | refl (s : Search) : Steps files 0 s s
  | head {n : Nat} {found : Packages} {dir : String} {rest : List String} {next s' : Search}
      (hvisit : (mk found rest).visit files dir = .ok next)
      (hrest : Steps files n next s') : Steps files (n + 1) ⟨found, dir :: rest⟩ s'

/-- The next directory cannot be taken up. -/
def Search.Fails (files : Files) (s : Search) (fault : Fault) : Prop :=
  ∃ dir rest, s.pending = dir :: rest ∧ (mk s.found rest).visit files dir = .error fault

/-- A directory could be read, and all packages in it are held. -/
def Exhausted (files : Files) (pkgs : Packages) (dir : String) : Prop :=
  ∃ paths, packagePaths files dir = .ok paths ∧ ∀ path ∈ paths, Held files pkgs path

/-- What holds of a search that has worked off the directories `done`. -/
structure Search.Worked (files : Files) (start : List String) (owner : Text) (target : Config)
    (done : List String) (s : Search) : Prop where
  valid : s.Valid files start owner target done
  exhausted : ∀ dir ∈ done, Exhausted files s.found dir

namespace Search.Worked

theorem begin {own : List String} (hown : packageDirs target = .ok own)
    (hstart : ∀ dir ∈ own, dir ∈ start) :
    (Search.mk [(owner, target)] start.reverse).Worked files start owner target [] := by
  have honly : ∀ key cfg, get? [(owner, target)] key = some cfg → key = owner ∧ cfg = target := by
    intro key cfg hget
    obtain ⟨hkey, hcfg⟩ := Prod.mk.inj (List.mem_singleton.1 (mem_of_get? hget))
    exact ⟨hkey, hcfg⟩
  have howns : ∀ more, packageDirs target = .ok more → ∀ dir ∈ more, dir ∈ start := by
    intro more hmore
    obtain rfl := Except.ok.inj (hown.symm.trans hmore)
    exact hstart
  refine ⟨⟨howns, by simp [keys], by simp [get?], ?_, ?_, by simp⟩, List.forall_mem_nil _⟩
  · exact fun key cfg hget => .inl (honly key cfg hget)
  · intro dir
    simp only [List.mem_reverse, List.not_mem_nil, or_false]
    constructor
    · intro hsearched
      cases hsearched with
      | start h => exact h
      | named _ _ _ hheld hmore hfurther =>
        obtain ⟨-, rfl⟩ := honly _ _ hheld
        exact howns _ hmore _ hfurther
    · exact .start

/-- **What taking up a directory preserves.** -/
theorem visit {found : Packages} {rest : List String}
    (h : (Search.mk found (dir :: rest)).Worked files start owner target done)
    (hvisit : (Search.mk found rest).visit files dir = .ok s') :
    s'.Worked files start owner target (dir :: done) := by
  obtain ⟨paths, hpaths, hadd⟩ := bind_ok_iff.1 hvisit
  have htaken : (Search.mk found rest).Valid files start owner target (dir :: done) := by
    refine ⟨h.valid.own, h.valid.distinct, h.valid.held, h.valid.found, fun further => ?_, ?_⟩
    · rw [h.valid.searched further]
      simp only [List.mem_cons]
      tauto
    · have hlen := h.valid.length
      simp only [List.length_cons] at hlen ⊢
      omega
  obtain ⟨hvalid, hwithin, hheld⟩ := htaken.addAll List.mem_cons_self
    (fun path hpath => (mem_packagePaths_iff hpaths).1 hpath) hadd
  refine ⟨hvalid, List.forall_mem_cons.2 ⟨⟨paths, hpaths, hheld⟩, fun d hd => ?_⟩⟩
  obtain ⟨paths', hpaths', hheld'⟩ := h.exhausted d hd
  exact ⟨paths', hpaths', fun path hpath => (hheld' path hpath).mono hwithin⟩

theorem steps {n : Nat} (h : s.Worked files start owner target done) (hsteps : Steps files n s s') :
    ∃ done', done'.length = done.length + n ∧ s'.Worked files start owner target done' := by
  induction hsteps generalizing done with
  | refl => exact ⟨done, rfl, h⟩
  | head hvisit _ ih =>
    obtain ⟨done', hlen, hworked⟩ := ih (h.visit hvisit)
    exact ⟨done', by rw [hlen, List.length_cons]; omega, hworked⟩

end Search.Worked

/-- A run ends with nothing left to search, at a directory that cannot be taken up, or after as many
directories as it may take. -/
theorem Search.run_cases (files : Files) (fuel : Nat) (s : Search) :
    ∃ n s', n ≤ fuel ∧ Steps files n s s' ∧
      (s'.pending = [] ∧ s.run files fuel = .ok s'.found ∨
        (∃ fault, s'.Fails files fault ∧ s.run files fuel = .error fault) ∨ n = fuel) := by
  induction fuel generalizing s with
  | zero => exact ⟨0, s, le_rfl, .refl s, .inr (.inr rfl)⟩
  | succ fuel ih =>
    obtain ⟨found, pending⟩ := s
    cases pending with
    | nil => exact ⟨0, _, Nat.zero_le _, .refl _, .inl ⟨rfl, rfl⟩⟩
    | cons dir rest =>
      have hrun : run files (fuel + 1) ⟨found, dir :: rest⟩ =
          (mk found rest).visit files dir >>= run files fuel := by
        rw [run, visit]
        exact (bind_assoc _ _ _).symm
      cases hvisit : (mk found rest).visit files dir with
      | error fault =>
        refine ⟨0, _, Nat.zero_le _, .refl _, .inr (.inl ⟨fault, ⟨dir, rest, rfl, hvisit⟩, ?_⟩)⟩
        rw [hrun, hvisit]
        rfl
      | ok next =>
        rw [hrun, hvisit, ok_bind]
        obtain ⟨n, s', hn, hsteps, hend⟩ := ih next
        exact ⟨n + 1, s', Nat.succ_le_succ hn, .head hvisit hsteps,
          hend.imp_right (Or.imp_right fun h => by rw [h])⟩

end AddonBuilder.Package
