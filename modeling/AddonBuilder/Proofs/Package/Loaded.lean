import AddonBuilder.Package.Discovery
import AddonBuilder.Proofs.Files.Names
import AddonBuilder.Proofs.Text.Utf8

/-!
# What the description of a package holds

The description that is read from a directory is completed member by member.
-/

namespace AddonBuilder.Package

open Json Text Assoc Value Path Except

variable {files : Files} {cfg cfg' : Config} {path base sec : String}

/-! ### Each step sets one member -/

variable {names : List String} {allowRoot : Bool} {key : Text} {v : Value} {name : String}

/-- A section that is set is set to a directory that is not empty. -/
theorem withSection_cases (h : withSection files cfg sec base names allowRoot = .ok cfg') :
    ∃ found, sectionDir files cfg base names allowRoot = .ok found ∧
      (cfg' = cfg ∧ (∀ dir ∈ found, dir.isEmpty) ∨
        ∃ dir, cfg' = insert cfg sec (str (files.absolute dir))) := by
  unfold withSection at h
  obtain ⟨found, hfound, h⟩ := bind_ok_iff.1 h
  refine ⟨found, hfound, ?_⟩
  cases found with
  | none =>
    obtain rfl := pure_ok_iff.1 h
    exact .inl ⟨rfl, by simp⟩
  | some dir =>
    obtain rfl := pure_ok_iff.1 h
    grind

theorem get?_insert_of_ne {other : Text} (hkey : other ≠ key) (v : Value) :
    get? (insert cfg other v) key = get? cfg key := by
  rw [get?_insert, if_neg hkey]

theorem get?_withSection (h : withSection files cfg sec base names allowRoot = .ok cfg')
    (hkey : ofString sec ≠ key) : get? cfg' key = get? cfg key := by
  obtain ⟨found, -, ⟨rfl, -⟩ | ⟨dir, rfl⟩⟩ := withSection_cases h
  · rfl
  · exact get?_insert_of_ne hkey _

theorem get?_withList {listed : String} (hkey : ofString listed ≠ key) :
    get? (withList cfg listed) key = get? cfg key := by
  unfold withList
  split
  · exact get?_insert_of_ne hkey _
  · rfl

theorem get?_withDefaultFile {key' file : String} (hkey : ofString key' ≠ key) :
    get? (withDefaultFile files path key' file cfg) key = get? cfg key := by
  unfold withDefaultFile
  split
  · exact get?_insert_of_ne hkey _
  · rfl

theorem get?_withMain (h : withMain files path cfg = .ok cfg')
    (hkey : ofString "main" ≠ key) : get? cfg' key = get? cfg key := by
  unfold withMain at h
  split at h
  · obtain rfl := pure_ok_iff.1 h
    rfl
  · split at h
    · obtain rfl := pure_ok_iff.1 h
      rfl
    · obtain ⟨dirs, -, h⟩ := bind_ok_iff.1 h
      obtain ⟨programs, -, h⟩ := bind_ok_iff.1 h
      obtain rfl := pure_ok_iff.1 h
      split
      · exact get?_insert_of_ne hkey _
      · rfl

/-! ### The directory for further packages -/

theorem isEmpty_join {a b : String} (hb : b.isEmpty = false) : (join a b).isEmpty = false := by
  have hne : b.toList ≠ [] := by
    intro hnil
    rw [← Bool.not_eq_true, String.isEmpty_iff, ← String.toList_inj] at hb
    exact hb hnil
  rw [← Bool.not_eq_true, String.isEmpty_iff, ← String.toList_inj]
  unfold Path.join
  split
  · exact hne
  · split <;> simp [hne]

theorem isEmpty_display {t : Text} (ht : t ≠ []) : t.display.isEmpty = false := by
  rw [← Bool.not_eq_true, String.isEmpty_iff, ← String.toList_inj, display, String.toList_ofList]
  simpa using ht

theorem joinValue_eq_ok_iff {dir : String} :
    joinValue base v = .ok dir ↔ ∃ t, v = .text t ∧ dir = join base t.display := by
  constructor
  · intro h
    cases v with
    | text t => exact ⟨t, rfl, (ok.inj h).symm⟩
    | null | bool _ | int _ | float _ | array _ | object _ => cases h
  · rintro ⟨t, rfl, rfl⟩
    rfl

theorem sectionDir_of_given {found : Option String} (hv : given? cfg name = some v)
    (h : sectionDir files cfg base [name] allowRoot = .ok found) :
    ∃ dir, found = some dir ∧ dir.isEmpty = false := by
  obtain ⟨-, hgiven⟩ := Option.filter_eq_some_iff.1 hv
  unfold sectionDir at h
  obtain ⟨answer, hanswer, h⟩ := bind_ok_iff.1 h
  rw [firstAnswer, hv] at hanswer
  dsimp only at hanswer
  cases hjoin : joinValue base v with
  | error fault =>
    rw [hjoin] at hanswer
    cases hanswer
  | ok dir =>
    rw [hjoin] at hanswer
    obtain rfl := ok.inj hanswer
    obtain rfl := pure_ok_iff.1 h
    obtain ⟨t, rfl, rfl⟩ := joinValue_eq_ok_iff.1 hjoin
    have ht : t ≠ [] := by simpa [isGiven] using hgiven
    exact ⟨_, rfl, isEmpty_join (isEmpty_display ht)⟩

/-- What is known about a description that has been read from a directory. -/
structure Loaded (files : Files) (path : String) (cfg : Config) : Prop where
  /-- The name is stated, or else it is the last name of the path. -/
  name : ∃ members, loadMembers files (join path manifestName) = .ok members ∧
    get? cfg "name" = some ((get? members "name").getD (str (Path.base path)))
  root : get? cfg "root_dir" = some (str path)
  /-- If a directory with further packages is given, it is a single one in normal form. -/
  pkgs : given? cfg "packages" = none ∨
    ∃ place, get? cfg "packages" = some (.array [str (files.absolute place)])

theorem given?_congr (h : get? cfg' name = get? cfg name) : given? cfg' name = given? cfg name := by
  rw [given?, given?, h]

theorem packages_withSection
    (h : withSection files cfg "packages" base ["packages"] false = .ok cfg') :
    given? cfg' "packages" = none ∨
      ∃ place, get? cfg' "packages" = some (str (files.absolute place)) := by
  obtain ⟨found, hfound, ⟨rfl, hempty⟩ | ⟨dir, rfl⟩⟩ := withSection_cases h
  · left
    cases hgiven : given? cfg' "packages" with
    | none => rfl
    | some v =>
      obtain ⟨dir, rfl, hdir⟩ := sectionDir_of_given hgiven hfound
      rw [hempty dir rfl] at hdir
      cases hdir
  · right
    exact ⟨dir, by rw [get?_insert, if_pos rfl]⟩

theorem packages_withList (h : given? cfg "packages" = none ∨
      ∃ place, get? cfg "packages" = some (str (files.absolute place))) :
    given? (withList cfg "packages") "packages" = none ∨
      ∃ place, get? (withList cfg "packages") "packages" =
        some (.array [str (files.absolute place)]) := by
  rcases h with hnone | ⟨place, hplace⟩
  · left
    rw [withList, hnone]
    exact hnone
  · cases hgiven : given? cfg "packages" with
    | none =>
      left
      rw [withList, hgiven]
      exact hgiven
    | some v =>
      right
      refine ⟨place, ?_⟩
      have hv := (Option.filter_eq_some_iff.1 hgiven).1
      obtain rfl := Option.some.inj (hplace.symm.trans hv)
      rw [withList, hgiven]
      exact (get?_insert _ _ _ _).trans (if_pos rfl)

def completedKeys : List Text := ["icon", "icon64", "lib", "tests", "dependencies"]

/-- Icons and lists leave the name and the directory for packages alone. -/
theorem get?_completed (hkey : key ∉ completedKeys) :
    get? (["lib", "tests", "dependencies"].foldl withList
      (withDefaultFile files path "icon64" "icon64.png"
        (withDefaultFile files path "icon" "icon.png" cfg))) key = get? cfg key := by
  simp only [completedKeys, List.mem_cons, List.not_mem_nil, or_false, not_or, ← ne_eq] at hkey
  obtain ⟨hicon, hicon64, hlib, htests, hdependencies⟩ := hkey
  simp only [List.foldl_cons, List.foldl_nil]
  rw [get?_withList hdependencies.symm, get?_withList htests.symm, get?_withList hlib.symm,
    get?_withDefaultFile hicon64.symm, get?_withDefaultFile hicon.symm]

theorem get?_named (members : Members) (v : Value) :
    get? (if contains members "name" then members else insert members "name" v)
      "name" = some ((get? members "name").getD v) := by
  cases hget : get? members (ofString "name") with
  | none =>
    rw [contains, hget, if_neg (by simp), get?_insert, if_pos rfl]
    rfl
  | some w =>
    rw [contains, hget, if_pos (by rfl), hget]
    rfl

/-- **What is read from a directory.** -/
theorem loaded_of_load (h : load files path = .ok cfg) : Loaded files path cfg := by
  unfold load at h
  dsimp only at h
  split at h
  · cases h
  obtain ⟨members, hmembers, h⟩ := bind_ok_iff.1 h
  obtain ⟨c₁, h₁, h⟩ := bind_ok_iff.1 h
  obtain ⟨c₂, h₂, h⟩ := bind_ok_iff.1 h
  obtain ⟨c₃, h₃, h⟩ := bind_ok_iff.1 h
  obtain ⟨c₄, h₄, h⟩ := bind_ok_iff.1 h
  obtain ⟨c₅, h₅, h⟩ := bind_ok_iff.1 h
  obtain ⟨c₆, h₆, h⟩ := bind_ok_iff.1 h
  obtain ⟨c₇, h₇, h⟩ := bind_ok_iff.1 h
  -- Behind the main module only the directory and the dependencies are set.
  have hend : ∀ key : Text, ofString "dependencies" ≠ key →
      get? cfg key = get? (insert c₇ "root_dir" (str path)) key := by
    intro key hkey
    split at h
    · obtain rfl := pure_ok_iff.1 h
      rfl
    · obtain ⟨items, -, h⟩ := bind_ok_iff.1 h
      obtain rfl := pure_ok_iff.1 h
      exact get?_insert_of_ne hkey _
  have hrest : ∀ key : Text, key ∉ [ofString "dependencies", ofString "root_dir",
      ofString "main"] → get? cfg key =
        get? (withList (["lib", "tests", "dependencies"].foldl withList
          (withDefaultFile files path "icon64" "icon64.png"
            (withDefaultFile files path "icon" "icon.png" c₆))) "packages") key := by
    intro key hkey
    simp only [List.mem_cons, List.not_mem_nil, or_false, not_or, ← ne_eq] at hkey
    rw [hend key hkey.1.symm, get?_insert_of_ne hkey.2.1.symm, get?_withMain h₇ hkey.2.2.symm]
    rfl
  refine ⟨⟨members, hmembers, ?_⟩, ?_, ?_⟩
  · rw [hrest _ (by decide), get?_withList (by decide), get?_completed (by decide),
      get?_withSection h₆ (by decide), get?_withSection h₅ (by decide),
      get?_withSection h₄ (by decide), get?_withSection h₃ (by decide),
      get?_withSection h₂ (by decide), get?_withSection h₁ (by decide)]
    rw [← get?_named members (str (base path))]
    generalize (if contains members (ofString "name") then members
      else insert members (ofString "name") (str (base path))) = named
    split
    · exact get?_insert_of_ne (by decide) _
    · rfl
  · rw [hend _ (by decide), get?_insert, if_pos rfl]
  · have hset : given? c₆ "packages" = none ∨
        ∃ place, get? c₆ "packages" = some (str (files.absolute place)) := by
      have hkeep : get? c₆ "packages" = get? c₅ "packages" := get?_withSection h₆ (by decide)
      rw [given?_congr hkeep, hkeep]
      exact packages_withSection h₅
    have hkeep : get? (["lib", "tests", "dependencies"].foldl withList
        (withDefaultFile files path "icon64" "icon64.png"
          (withDefaultFile files path "icon" "icon.png" c₆))) "packages" = get? c₆ "packages" :=
      get?_completed (by decide)
    rw [← given?_congr hkeep, ← hkeep] at hset
    have hkey := hrest (ofString "packages") (by decide)
    rw [given?_congr hkey, hkey]
    exact packages_withList hset

theorem elements_of_not_given {items : List Value} (hv : v.isGiven = false)
    (h : asElements v = .ok items) : items = [] := by
  cases v with
  | text t =>
    obtain rfl : t = [] := by simpa [isGiven] using hv
    exact (ok.inj h).symm
  | array l =>
    obtain rfl : l = [] := by simpa [isGiven] using hv
    exact (ok.inj h).symm
  | object m =>
    obtain rfl : m = [] := by simpa [isGiven] using hv
    exact (ok.inj h).symm
  | null | bool _ | int _ | float _ => cases h

namespace Loaded

theorem rootDir_eq (h : Loaded files path cfg) : rootDir cfg = .ok path := by
  have hfield : field cfg "root_dir" = .ok (str path) := by rw [field, h.root]
  rw [rootDir, hfield, ok_bind]
  exact congrArg ok (display_ofString path)

theorem name_eq (h : Loaded files path cfg) {owner : Text} (howner : Package.name cfg = .ok owner) :
    ∃ members, loadMembers files (join path manifestName) = .ok members ∧
      (get? members "name").getD (str (Path.base path)) = .text owner := by
  obtain ⟨members, hmembers, hname⟩ := h.name
  refine ⟨members, hmembers, ?_⟩
  unfold Package.name field at howner
  rw [hname, ok_bind] at howner
  generalize (get? members _).getD _ = v at howner ⊢
  cases v with
  | text t => exact congrArg text (ok.inj howner)
  | null | bool _ | int _ | float _ | array _ | object _ => cases howner

/-- A package names at most one directory with further packages, in normal form. -/
theorem packageDirs_cases (h : Loaded files path cfg) {more : List String}
    (hmore : packageDirs cfg = .ok more) :
    more = [] ∨ ∃ place, more = [join path (files.absolute place)] := by
  unfold packageDirs at hmore
  rcases h.pkgs with hnone | ⟨place, hplace⟩
  · left
    cases hget : get? cfg (ofString "packages") with
    | none =>
      rw [hget] at hmore
      exact (ok.inj hmore).symm
    | some v =>
      have hv : v.isGiven = false := by simpa [given?, hget] using hnone
      rw [hget] at hmore
      obtain ⟨items, hitems, hmore⟩ := bind_ok_iff.1 hmore
      rw [elements_of_not_given hv hitems] at hmore
      exact (pure_ok_iff.1 hmore).symm
  · right
    refine ⟨place, ?_⟩
    have hresolve : resolve cfg (str (files.absolute place)) =
        .ok (join path (files.absolute place)) := by
      rw [resolve, h.rootDir_eq, ok_bind, joinValue_eq_ok_iff]
      exact ⟨_, rfl, by rw [display_ofString]⟩
    rw [hplace] at hmore
    have hall : resolveAll cfg (.array [str (files.absolute place)]) =
        .ok [join path (files.absolute place)] := by
      unfold resolveAll
      exact mapM_eq_ok (g := fun _ => join path (files.absolute place)) (by simp [hresolve])
    exact (ok.inj (hall.symm.trans hmore)).symm

end Loaded

end AddonBuilder.Package
