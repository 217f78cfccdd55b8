import AddonBuilder.Proofs.Files.Normal
import AddonBuilder.Proofs.Package.Searched
import Mathlib.Data.List.Perm.Subperm

/-!
# What a search for packages finds

A package has a name that stands in a file of the tree, or the last name of its path, and the paths
of packages end in a name of the tree or are among those with which the search starts.
-/

namespace AddonBuilder.Package

open AddonBuilder.Path (IsName)
open Json Assoc List Option Path Except FileTree

variable {files : Files} {start done : List String} {pkgs : Packages} {owner key : Text}
  {target cfg : Config} {dir path : String} {s : Search}

/-! ### The names that packages can have -/

/-- The name that a file states if it is the description of a package. -/
def statedName? : Node → Option Text
  | .file content => do
    let v ← (decodeUtf8 content).toOption
    let members ← (objectMembers v).toOption
    ((get? members "name").bind fun name => (asText name).toOption)
  | _ => none

/-- The names that the packages in the tree can have, next to the target's. -/
def possibleNames (files : Files) (start : List String) (owner : Text) : List Text :=
  owner :: start.map (fun dir => Text.ofString (base dir)) ++
    files.tree.filterMap (fun entry => statedName? entry.2) ++
    (keys files.tree).map (fun l => Text.ofString (base (l.getLast?.getD ""))) ++
    (keys files.tree).map (fun l => Text.ofString (l.dropLast.getLast?.getD ""))

theorem length_possibleNames_le :
    (possibleNames files start owner).length ≤ 1 + start.length + 3 * files.tree.length := by
  have hstated := length_filterMap_le (fun entry => statedName? entry.2) files.tree
  simp only [possibleNames, Assoc.keys, length_append, length_cons, length_map]
  omega

/-- A name that a description states stands in the tree. -/
theorem exists_statedName {members : Members} (h : loadMembers files path = .ok members)
    (hname : get? members "name" = some (.text key)) :
    ∃ entry ∈ files.tree, statedName? entry.2 = some key := by
  unfold loadMembers at h
  split at h
  · cases h
  rename_i content hread
  obtain ⟨l, hl⟩ := Files.mem_of_read? hread
  refine ⟨(l, .file content), hl, ?_⟩
  split at h
  · cases h
  rename_i v hdecode
  split at h
  · rename_i members' hmembers
    obtain rfl := ok.inj h
    simp [statedName?, hdecode, hmembers, hname, Except.toOption, asText]
  · cases h
  · cases h

/-- A directory is searched from the start, or was named in full. -/
theorem Searched.cases (h : Searched files start pkgs dir) :
    dir ∈ start ∨ ∃ place, dir = files.absolute place := by
  cases h with
  | start h => exact .inl h
  | named _ _ hload _ hmore hfurther =>
    right
    rcases (loaded_of_load hload).packageDirs_cases hmore with rfl | ⟨place, rfl⟩
    · cases hfurther
    · obtain ⟨root, l, hroot, -, habsolute⟩ := files.exists_absolute place
      refine ⟨place, ?_⟩
      rw [mem_singleton.1 hfurther, Path.join, if_pos (habsolute ▸ isAbsolute_rooted hroot _)]

/-- A directory in normal form with a description ends in a name of the tree. -/
theorem exists_base_of_manifest {place : String}
    (h : files.contains (join (files.absolute place) manifestName)) :
    ∃ l ∈ keys files.tree, base (files.absolute place) = l.dropLast.getLast?.getD "" := by
  obtain ⟨root, l, hroot, hl, habsolute⟩ := files.exists_absolute place
  have hmanifest : IsName manifestName := by decide
  have hempty : (root ++ Text.joinStrings "/" l).isEmpty = false := by
    rw [← Bool.not_eq_true, String.isEmpty_iff, ← String.toList_inj]
    rcases hroot with rfl | rfl <;> simp
  rw [habsolute] at h ⊢
  obtain ⟨node, hnode⟩ := isSome_iff_exists.1 h
  obtain ⟨m, hm, hget⟩ := bind_eq_some_iff.1 hnode
  rw [locate?_join hempty hmanifest] at hm
  obtain ⟨l', hl', hwalk⟩ := bind_eq_some_iff.1 hm
  obtain rfl := eq_of_locate?_rooted hroot hl hl'
  obtain rfl := walk?_plain (by simpa using hmanifest.1) hwalk
  refine ⟨l' ++ [manifestName], (mem_keys_iff (by simp)).2 (by rw [hget]; rfl), ?_⟩
  rw [base_rooted hroot hl, dropLast_concat]

/-- **The names of packages that can be found are finitely many.** -/
theorem Found.mem_possibleNames (h : Found files start pkgs path cfg key) :
    key ∈ possibleNames files start owner := by
  simp only [possibleNames, mem_append, mem_cons, List.mem_map, mem_filterMap]
  obtain ⟨members, hmembers, hname⟩ := (loaded_of_load h.load).name_eq h.name
  cases hstated : get? members (Text.ofString "name") with
  | some v =>
    rw [hstated, getD_some] at hname
    exact .inl (.inl (.inr (exists_statedName hmembers (hname ▸ hstated))))
  | none =>
    rw [hstated, getD_none] at hname
    obtain rfl : Text.ofString (base path) = key := Value.text.inj hname
    obtain ⟨dir, hdir, hpath⟩ := h.place
    cases hpath with
    | inside _ hnames hn _ _ =>
      obtain ⟨l, -, hlist⟩ := bind_eq_some_iff.1 hnames
      split at hlist
      · obtain rfl := some.inj hlist
        refine .inl (.inr ⟨_, mem_children.1 hn, ?_⟩)
        rw [base_join, getLast?_concat, getD_some]
      · cases hlist
    | itself hmanifest =>
      rcases hdir.cases with hstart | ⟨place, rfl⟩
      · exact .inl (.inl (.inl (.inr ⟨_, hstart, rfl⟩)))
      · obtain ⟨l, hl, hbase⟩ := exists_base_of_manifest hmanifest
        exact .inr ⟨l, hl, by rw [hbase]⟩

/-! ### The end of a search -/

namespace Search.Worked

theorem length_found_le (h : s.Worked files start owner target done) :
    s.found.length ≤ 1 + start.length + 3 * files.tree.length := by
  have hsubset : keys s.found ⊆ possibleNames files start owner := by
    intro key hkey
    obtain ⟨cfg, hget⟩ := isSome_iff_exists.1 (contains_iff.2 hkey)
    rcases h.valid.found key cfg hget with ⟨rfl, -⟩ | ⟨path, hfound⟩
    · simp [possibleNames]
    · exact hfound.mem_possibleNames
  have hlen := (subperm_of_subset h.valid.distinct hsubset).length_le
  rw [Assoc.keys, length_map] at hlen
  exact hlen.trans length_possibleNames_le

theorem length_lt (h : s.Worked files start owner target done) (hstart : start ≠ []) :
    done.length < searchBound files start.length := by
  have hlen := h.valid.length
  have hfound := h.length_found_le
  have hpos : 0 < start.length := length_pos_iff.2 hstart
  have hproduct : files.tree.length ≤ start.length * files.tree.length :=
    Nat.le_mul_of_pos_left _ hpos
  have hbound : searchBound files start.length =
      2 * (start.length * files.tree.length) + 5 * start.length + 2 * files.tree.length + 4 := by
    simp only [searchBound, Nat.add_mul, Nat.mul_add]
    omega
  omega

end Search.Worked

/-- The packages are the target and those in the directories that are searched. -/
structure Closed (files : Files) (start : List String) (owner : Text) (target : Config)
    (pkgs : Packages) : Prop where
  distinct : (keys pkgs).Nodup
  owns : get? pkgs owner = some target
  /-- What else is held was found, and its directory is the one in which it was found. -/
  found : ∀ key cfg, get? pkgs key = some cfg → key = owner ∧ cfg = target ∨
    ∃ path, Found files start pkgs path cfg key ∧ rootDir cfg = .ok path
  readable : ∀ dir, Searched files start pkgs dir →
    files.contains (join dir manifestName) = true ∨ files.isDir dir = true
  held : ∀ dir path, Searched files start pkgs dir → LiesIn files dir path → Held files pkgs path
  same : ∀ key path path' cfg cfg', Found files start pkgs path cfg key →
    Found files start pkgs path' cfg' key → SameDir files path path'

theorem readable_of_packagePaths {paths : List String} (h : packagePaths files dir = .ok paths) :
    files.contains (join dir manifestName) ∨ files.isDir dir := by
  unfold packagePaths at h
  split at h
  · exact .inl ‹_›
  right
  split at h
  · cases h
  · rename_i names hnames
    obtain ⟨l, hl, hlist⟩ := bind_eq_some_iff.1 hnames
    split at hlist
    · rename_i hdir
      rw [Files.isDir, Files.node?, hl, bind_some]
      exact hdir
    · cases hlist

/-- Two directories with packages of one name are the same as that of the package held. -/
theorem Held.sameDir {path' : String} {cfg' : Config} (h : Held files pkgs path)
    (h' : Held files pkgs path') (hload : load files path = .ok cfg)
    (hname : name cfg = .ok key) (hload' : load files path' = .ok cfg')
    (hname' : name cfg' = .ok key) : SameDir files path path' := by
  obtain ⟨_, _, other, place, hl, hn, hget, hplace, hsame⟩ := h
  obtain rfl := ok.inj (hload.symm.trans hl)
  obtain rfl := ok.inj (hname.symm.trans hn)
  obtain ⟨_, _, other', place', hl', hn', hget', hplace', hsame'⟩ := h'
  obtain rfl := ok.inj (hload'.symm.trans hl')
  obtain rfl := ok.inj (hname'.symm.trans hn')
  obtain rfl := some.inj (hget.symm.trans hget')
  obtain rfl := ok.inj (hplace.symm.trans hplace')
  exact hsame.symm.trans hsame'

theorem Search.Worked.closed (h : s.Worked files start owner target done) (hend : s.pending = []) :
    Closed files start owner target s.found := by
  have hdone : ∀ dir, Searched files start s.found dir → Exhausted files s.found dir := by
    intro dir hdir
    rcases (h.valid.searched dir).1 hdir with hpending | hdone
    · rw [hend] at hpending
      cases hpending
    · exact h.exhausted dir hdone
  have hheld : ∀ dir path, Searched files start s.found dir →
      LiesIn files dir path → Held files s.found path := by
    intro dir path hdir hpath
    obtain ⟨paths, hpaths, hall⟩ := hdone dir hdir
    exact hall path ((mem_packagePaths_iff hpaths).2 hpath)
  refine ⟨h.valid.distinct, h.valid.held, ?_, ?_, hheld, ?_⟩
  · intro key cfg hget
    rcases h.valid.found key cfg hget with htarget | ⟨path, hfound⟩
    · exact .inl htarget
    · exact .inr ⟨path, hfound, (loaded_of_load hfound.load).rootDir_eq⟩
  · intro dir hdir
    obtain ⟨paths, hpaths, -⟩ := hdone dir hdir
    exact readable_of_packagePaths hpaths
  · intro key path path' cfg cfg' hfound hfound'
    obtain ⟨dir, hdir, hpath⟩ := hfound.place
    obtain ⟨dir', hdir', hpath'⟩ := hfound'.place
    exact (hheld _ _ hdir hpath).sameDir (hheld _ _ hdir' hpath')
      hfound.load hfound.name hfound'.load hfound'.name

/-- The directories that the search starts from. -/
def startDirs (files : Files) (library root : String) (own searchPath : List String) :
    List String :=
  let shared := join root "packages"
  library :: (own ++ (if files.isDir shared then [shared] else []) ++ searchPath)

/-- **A search for packages comes to its end, and holds exactly what lies in the directories that are
searched.**  It works off directory after directory until one cannot be taken up, which is its fault,
or none is left. -/
theorem discover_closes (files : Files) (library root : String) (target : Config)
    (searchPath : List String) :
    (∃ fault, (packageDirs target = .error fault ∨ name target = .error fault) ∧
      discover files library root target searchPath = .error fault) ∨
    ∃ own owner start n s, packageDirs target = .ok own ∧ name target = .ok owner ∧
      start = startDirs files library root own searchPath ∧
      Search.Steps files n ⟨[(owner, target)], start.reverse⟩ s ∧
      n < searchBound files start.length ∧
      ((∃ fault, s.Fails files fault ∧
          discover files library root target searchPath = .error fault) ∨
        s.pending = [] ∧ discover files library root target searchPath = .ok s.found ∧
          Closed files start owner target s.found) := by
  cases hown : packageDirs target with
  | error fault => exact .inl ⟨fault, .inl rfl, by rw [discover, hown]; rfl⟩
  | ok own =>
    cases howner : name target with
    | error fault => exact .inl ⟨fault, .inr rfl, by rw [discover, hown, howner]; rfl⟩
    | ok owner =>
      right
      obtain ⟨start, hstart⟩ : ∃ start,
          start = startDirs files library root own searchPath := ⟨_, rfl⟩
      have hdiscover : discover files library root target searchPath = Search.run files
          (searchBound files start.length) ⟨[(owner, target)], start.reverse⟩ := by
        rw [discover, hown, howner, hstart]
        rfl
      have hbegin : (Search.mk [(owner, target)] start.reverse).Worked files start owner target
          [] := by
        refine .begin hown fun dir hdir => ?_
        simp [hstart, startDirs, hdir]
      obtain ⟨n, s, -, hsteps, hend⟩ := Search.run_cases files (searchBound files start.length)
        ⟨[(owner, target)], start.reverse⟩
      obtain ⟨done, hlen, hworked⟩ := hbegin.steps hsteps
      -- The search takes up one directory each step, so its bound is never the reason to end.
      have hn := hworked.length_lt (by simp [hstart, startDirs])
      rw [hlen, List.length_nil, Nat.zero_add] at hn
      refine ⟨own, owner, start, n, s, rfl, rfl, hstart, hsteps, hn, ?_⟩
      rw [hdiscover]
      rcases hend with ⟨hpending, hrun⟩ | hfault | hfuel
      · exact .inr ⟨hpending, hrun, hworked.closed hpending⟩
      · exact .inl hfault
      · exact absurd hfuel hn.ne

/-- A library with a name of its own, which brings along a package that states none. -/
def nested : Files where
  tree := [ (["lib"], .dir),
    (["lib", "package.json"], .file (Codec.utf8OfString "\x7b\"name\": \"kit\"\x7d")),
    (["lib", "packages"], .dir),
    (["lib", "packages", "panel"], .dir),
    (["lib", "packages", "panel", "package.json"], .file (Codec.utf8OfString "\x7b\x7d"))]

/-- Packages are found in package directories of packages. -/
theorem discover_closes_nested :
    ∃ start pkgs, discover nested "/lib" "/" placeholder [] = .ok pkgs ∧
      Assoc.keys pkgs = ["dummy", "kit", "panel"].map Text.ofString ∧
      Closed nested start "dummy" placeholder pkgs := by
  have hkeys : (discover nested "/lib" "/" placeholder []).toOption.map Assoc.keys =
      some (["dummy", "kit", "panel"].map Text.ofString) := by decide +kernel
  have hname : name placeholder = .ok (Text.ofString "dummy") := rfl
  obtain ⟨fault, -, h⟩ | ⟨own, owner, start, n, s, -, howner, -, -, -, ⟨fault, -, h⟩ |
    ⟨-, h, hclosed⟩⟩ := discover_closes nested "/lib" "/" placeholder []
  · rw [h] at hkeys
    cases hkeys
  · rw [h] at hkeys
    cases hkeys
  · rw [h] at hkeys
    obtain rfl := Except.ok.inj (hname.symm.trans howner)
    exact ⟨start, s.found, h, Option.some.inj hkeys, hclosed⟩

end AddonBuilder.Package
