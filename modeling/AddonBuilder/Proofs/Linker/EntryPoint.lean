import AddonBuilder.Proofs.Files.Normal
import AddonBuilder.Proofs.Linker.Causes

/-!
# The names of main modules

The name of a main module is what is left of the path of its file after the library directory.
-/

namespace AddonBuilder

namespace Path

/-- A path that goes on below a directory. -/
def Below (dir file : String) : Prop :=
  ∃ rest, rest.isEmpty = false ∧ isAbsolute rest = false ∧ file = join dir rest

theorem base_append {t : String} (ht : '/' ∉ t.toList) (s : String) :
    base (s ++ t) = base s ++ t := by
  obtain ⟨before, last, hs, hst⟩ := names_append ht s
  have hlast := getLast?_names s
  have hlast' := getLast?_names (s ++ t)
  grind

theorem base_suffix (p : String) : (base p).toList <:+ p.toList := by
  have hlast : (base p).toList = (p.toList.reverse.takeWhile (· ≠ '/')).reverse :=
    String.toList_ofList
  rw [hlast, ← List.reverse_prefix, List.reverse_reverse]
  exact List.takeWhile_prefix _

theorem exists_head_of_relative {rest : String} (hrest : rest.isEmpty = false)
    (hrel : isAbsolute rest = false) : ∃ c l, rest.toList = c :: l ∧ c ≠ '/' := by
  cases hl : rest.toList with
  | nil =>
    rw [String.toList_eq_nil_iff.1 hl] at hrest
    cases hrest
  | cons c l =>
    refine ⟨c, l, rfl, ?_⟩
    rintro rfl
    rw [isAbsolute_iff.2 (by rw [hl]; rfl)] at hrel
    cases hrel

/-- After the directory and any slashes, the rest of a path below it is left. -/
theorem exists_join_eq {dir rest : String} (hrest : rest.isEmpty = false)
    (hrel : isAbsolute rest = false) :
    ∃ after, (join dir rest).toList = dir.toList ++ after ∧
      after.dropWhile (· = '/') = rest.toList := by
  obtain ⟨c, l, hl, hc⟩ := exists_head_of_relative hrest hrel
  unfold join
  rw [hrel, if_neg (by decide)]
  split
  · exact ⟨rest.toList, String.toList_append, by simp [hl, hc]⟩
  · exact ⟨'/' :: rest.toList, by simp, by simp [hl, hc]⟩

end Path

namespace Linker

open Json String Package
open Package (Config)

theorem base_of_mem_mainFiles {root main file : String} {library : Option String}
    (h : file ∈ mainFiles root main library) : ∃ stem, Path.base file = stem ++ ".js" := by
  have hjs : '/' ∉ ".js".toList := by decide
  simp only [mainFiles, List.mem_cons, List.mem_map, Path.joinAll, List.foldl_cons,
    List.foldl_nil] at h
  rcases h with hfile | ⟨l, -, hfile⟩
  · exact ⟨_, by rw [hfile, Path.base_join, Path.base_append hjs]⟩
  · exact ⟨_, by rw [← hfile, Path.base_join, Path.base_append hjs]⟩

section Name

variable {files : Files} {cfg : Config} {dir : Text} {root file : String}

theorem exists_of_mainLibrary (h : mainLibrary cfg = .ok dir) :
    ∃ lib first rest, field cfg "lib" = .ok lib ∧
      asElements lib = .ok (first :: rest) ∧ asText first = .ok dir := by
  unfold mainLibrary at h
  obtain ⟨lib, hlib, h⟩ := bind_ok_iff.1 h
  obtain ⟨elements, helements, h⟩ := bind_ok_iff.1 h
  cases elements with
  | nil => cases h
  | cons first rest => exact ⟨lib, first, rest, hlib, helements, h⟩

variable (hdir : mainLibrary cfg = .ok dir) (hroot : rootDir cfg = .ok root)

include hdir hroot

/-- The name is what the directory, the slashes after it and the ending leave of the path. -/
theorem nameInLibrary_eq_ok_iff {name : String} :
    nameInLibrary files cfg file = .ok name ↔
      ∃ after, (files.absolute file).toList =
          (files.absolute (Path.join root dir.display)).toList ++ after ∧
        name = ofList
          ((after.dropWhile (· = '/')).take ((after.dropWhile (· = '/')).length - 3)) := by
  obtain ⟨lib, first, rest, hlib, helements, hfirst⟩ := exists_of_mainLibrary hdir
  simp only [nameInLibrary, hlib, helements, hfirst, hroot, Except.mapError, bind, Except.bind,
    ← Text.dropStart?_eq_some_iff]
  cases Text.dropStart? (files.absolute (Path.join root dir.display)).toList
      (files.absolute file).toList with
  | none => cases field cfg "name" <;> simp [throw, throwThe, MonadExceptOf.throw]
  | some after => simp [pure, Except.pure, eq_comm]

theorem nameInLibrary_of_not_prefix {name : Value} (hname : field cfg "name" = .ok name)
    (h : ¬ (files.absolute (Path.join root dir.display)).toList <+: (files.absolute file).toList) :
    nameInLibrary files cfg file =
      .error (.unreachable (files.absolute file) name.plain.display dir.display) := by
  obtain ⟨lib, first, rest, hlib, helements, hfirst⟩ := exists_of_mainLibrary hdir
  have hnone : Text.dropStart? (files.absolute (Path.join root dir.display)).toList
      (files.absolute file).toList = none := by
    rw [Option.eq_none_iff_forall_ne_some]
    exact fun after hafter => h ⟨after, (Text.dropStart?_eq_some_iff.1 hafter).symm⟩
  simp only [nameInLibrary, hlib, helements, hfirst, hroot, hname, Except.mapError, bind,
    Except.bind, hnone]
  rfl

/-- The name of a source file leads back to it exactly if the file lies below the directory. -/
theorem join_name_eq_iff {name stem : String} (hbase : Path.base file = stem ++ ".js")
    (hname : nameInLibrary files cfg file = .ok name) :
    Path.join (files.absolute (Path.join root dir.display)) (name ++ ".js") = files.absolute file ↔
      Path.Below (files.absolute (Path.join root dir.display)) (files.absolute file) := by
  constructor
  · intro hjoin
    refine ⟨name ++ ".js", ?_, ?_, hjoin.symm⟩
    · simp [← Bool.not_eq_true, String.isEmpty_iff]
    · obtain ⟨after, -, rfl⟩ := (nameInLibrary_eq_ok_iff hdir hroot).1 hname
      rw [← Bool.not_eq_true, Path.isAbsolute_iff, toList_append, toList_ofList]
      intro hhead
      cases hdrop : after.dropWhile (· = '/') with
      | nil => simp [hdrop] at hhead
      | cons c l =>
        have hc := List.head?_dropWhile_not (fun x => decide (x = '/')) after
        rw [hdrop] at hc hhead
        cases hk : (c :: l).length - 3 <;> simp_all
  · rintro ⟨rest, hrest, hrel, hfile⟩
    obtain ⟨after, hafter, hdrop⟩ := Path.exists_join_eq hrest hrel
    rw [← hfile] at hafter
    have hcut := (nameInLibrary_eq_ok_iff hdir hroot).2 ⟨after, hafter, rfl⟩
    rw [hname, hdrop] at hcut
    obtain rfl := Except.ok.inj hcut
    -- The rest ends like the file, so that the ending can be cut off and put back.
    have hplain : Path.Plain (Path.base file) := hbase ▸ plain_append_js stem
    have hend : ".js".toList <:+ rest.toList := by
      refine List.IsSuffix.trans ⟨stem.toList, ?_⟩ (Path.base_suffix rest)
      rw [← Path.base_join _ rest, ← hfile, files.base_absolute hplain, hbase, toList_append]
    obtain ⟨start, hstart⟩ := hend
    have hback : ofList (rest.toList.take (rest.toList.length - 3)) ++ ".js" = rest := by
      rw [← toList_inj, ← hstart]
      simp
    rw [hback]
    exact hfile.symm

end Name

/-- A main module with the name that its file gave it. -/
structure EntryNamed (s : Setting) (cfg : Config) (m : Module) : Prop where
  file : ∃ root main library, m.file ∈ mainFiles root main library
  name : nameInLibrary s.files cfg m.file = .ok m.name

/-- A package with a source file in its library and one beside it. -/
def twoMains : Setting :=
  lone [(["lib2"], .dir), source ["lib", "main.js"] "", source ["lib2", "main.js"] ""]

end Linker

end AddonBuilder
