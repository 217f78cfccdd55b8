import AddonBuilder.Proofs.Files.Growth
import AddonBuilder.Proofs.Linker.Contents
import AddonBuilder.Proofs.Linker.Straight

/-!
# Relative names

A relative name means a module of its user's own package.
-/

namespace AddonBuilder

open List FileTree
open AddonBuilder.Path (Plain)

namespace Path

/-- Dots take away as many names as there are steps up among them. -/
theorem foldl_pushName_dots {rooted : Bool} {dots done : List String}
    (hdots : ∀ n ∈ dots, n = "." ∨ n = "..") (hdone : ∀ n ∈ done, Plain n)
    (hcount : dots.count ".." ≤ done.length) :
    dots.foldl (pushName rooted) done = done.drop (dots.count "..") := by
  induction dots generalizing done with
  | nil => rfl
  | cons n rest ih =>
    obtain ⟨hn, hrest⟩ := forall_mem_cons.1 hdots
    rcases hn with rfl | rfl
    · have hcount' : ("." :: rest).count ".." = rest.count ".." := by simp
      rw [hcount'] at hcount ⊢
      exact ih hrest hdone hcount
    · rw [count_cons_self] at hcount ⊢
      cases done with
      | nil => simp at hcount
      | cons last done =>
        obtain ⟨hlast, hdone⟩ := forall_mem_cons.1 hdone
        have hpush : pushName rooted (last :: done) ".." = done := by simp [pushName, hlast.2.2]
        rw [foldl_cons, hpush, ih hrest hdone (by simpa using hcount), drop_succ_cons]

end Path

/-- A file that lies below a directory, however deep; an empty path is the working directory. -/
def Files.LiesBelow (f : Files) (dir file : String) : Prop :=
  ∃ d rest, (if dir.isEmpty then some f.here else f.tree.locate? f.here dir) = some d ∧
    rest ≠ [] ∧ f.tree.locate? f.here file = some (d ++ rest)

theorem Path.isAbsolute_of_plain {p : String} (h : ∀ n ∈ names p, Plain n) :
    isAbsolute p = false := by
  by_contra hp
  obtain ⟨rest, rfl⟩ := Text.beginsWith_iff.1 (Bool.not_eq_false _ ▸ hp)
  rw [← String.empty_append (s := "/"), names_append_slash] at h
  exact (h "" (mem_append_left _ (by decide))).1 rfl

theorem Files.liesBelow_join {f : Files} {dir file : String}
    (hplain : ∀ n ∈ Path.names file, Plain n) (h : f.contains (Path.join dir file)) :
    f.LiesBelow dir (Path.join dir file) := by
  have hrel := Path.isAbsolute_of_plain hplain
  have hne := Path.names_ne_nil file
  obtain ⟨node, hnode⟩ := Option.isSome_iff_exists.1 h
  obtain ⟨l, hl, -⟩ := Option.bind_eq_some_iff.1 hnode
  by_cases hempty : dir.isEmpty
  · obtain rfl := String.isEmpty_iff.1 hempty
    have hjoin : Path.join "" file = file := by simp [Path.join, hrel]
    rw [hjoin] at hl ⊢
    refine ⟨f.here, Path.names file, rfl, hne, ?_⟩
    have hwalk : f.tree.walk? f.here (Path.names file) = some l := by
      simpa [locate?, isEmpty_of_locate? hl, hrel] using hl
    rw [hl, walk?_plain hplain hwalk]
  · rw [locate?_join_of_relative (by simpa using hempty) hrel] at hl
    obtain ⟨d, hd, hwalk⟩ := Option.bind_eq_some_iff.1 hl
    refine ⟨d, Path.names file, by rw [if_neg hempty, hd], hne, ?_⟩
    rw [locate?_join_of_relative (by simpa using hempty) hrel, hd, Option.bind_some,
      hwalk, walk?_plain hplain hwalk]

namespace Linker

/-! ## The way of a relative name -/

section Way

variable {base steps : List String}

theorem plain_way_iff (hbase : ∀ n ∈ base, Plain n) :
    (∀ n ∈ way base steps, Plain n) ↔ ∀ n ∈ downs steps, Plain n := by
  rw [way, forall_mem_append, and_iff_right]
  exact fun n hn => hbase n (mem_of_mem_take hn)

theorem way_eq_normalNames (hbase : ∀ n ∈ base, Plain n) (hups : ups steps ≤ base.length)
    (hdowns : ∀ n ∈ downs steps, Plain n) (rooted : Bool) :
    way base steps = Path.normalNames rooted (base ++ steps) := by
  have hdots : ∀ n ∈ steps.takeWhile fun n => n = "." || n = "..", n = "." ∨ n = ".." := by
    intro n hn
    simpa using mem_takeWhile_imp hn
  have hsteps : steps.takeWhile (fun n => n = "." || n = "..") ++ downs steps = steps :=
    takeWhile_append_dropWhile
  calc way base steps
      = (foldl (Path.pushName rooted) (base.reverse.drop (ups steps)) (downs steps)).reverse := by
        rw [Path.foldl_pushName_plain hdowns, way, drop_reverse]
        simp
    _ = Path.normalNames rooted (base ++ steps) := by
        nth_rewrite 3 [← hsteps]
        rw [Path.normalNames, foldl_append, foldl_append,
          Path.foldl_pushName_plain hbase, append_nil, Path.foldl_pushName_dots hdots
          (by simpa using hbase) (by simpa [ups] using hups)]
        rfl

end Way

/-! ## What a relative name leads to -/

/-- The names of the directories a module lies in. -/
def Module.dir (user : Module) : List String := (Path.names user.name).dropLast

theorem relativeName_eq (user : Module) (name : String) :
    relativeName user name =
      (climb (.badName · name user) user.dir (Path.names name)).map (Text.joinStrings "/") := by
  change (climb (.badName · name user) user.dir (Path.names name) >>= fun steps =>
    pure (Text.joinStrings "/" steps)) = _
  cases climb (.badName · name user) user.dir (Path.names name) <;> rfl

theorem relativeName_of_way {user : Module} {name : String}
    (hups : ups (Path.names name) ≤ user.dir.length) (hdowns : downs (Path.names name) ≠ []) :
    relativeName user name = .ok (Text.joinStrings "/" (way user.dir (Path.names name))) := by
  rw [relativeName_eq, climb_eq, if_neg (by omega), if_neg hdowns]
  rfl

theorem plain_fileName {name : String} (h : ∀ n ∈ Path.names name, Plain n) :
    ∀ n ∈ Path.names (fileName name).1, Plain n := by
  rcases fileName_fst name with hfile | hfile <;> rw [hfile]
  · exact h
  · obtain ⟨before, last, hbefore, hafter⟩ := Path.names_append (t := ".js") (by decide) name
    rw [hbefore, forall_mem_append] at h
    rw [hafter, forall_mem_append]
    exact ⟨h.1, forall_mem_singleton.2 (plain_append_js last)⟩

/-- A directory of a section of a package, as the linker writes it, holds the file of a module at
some depth. -/
def InSection (s : Setting) (pkg : Text) (m : Module) : Prop :=
  ∃ cfg root dir, Assoc.get? s.pkgs pkg = some cfg ∧
    Package.rootDir cfg = .ok root ∧ dir ∈ dirsOf cfg m.sec ∧
    s.files.LiesBelow (Path.join root dir.display) m.file

section Resolve

variable {s : Setting} {user : Module} {name : String} {line : Option Nat} {sections : List String}

theorem resolve_eq_of_isRelative (hrel : isRelative name)
    (hsections : visibleSections user = .ok sections) :
    resolve s user name line = (liftM (relativeName user name) >>= fun inside =>
      inPackageIfKnown s sections inside (Text.ofString user.pkg)) := by
  rw [resolve, if_neg (by rw [isEmpty_of_isRelative hrel]; decide), hsections]
  simp only [hrel, if_true]
  rfl

theorem Located.inSection {pkg : Text} {m : Module} (h : Located s sections name pkg m)
    (hplain : ∀ n ∈ Path.names name, Plain n) : InSection s pkg m := by
  obtain ⟨-, -, cfg, root, -, hcfg, hroot, -, -, hfile, -⟩ := h
  obtain ⟨dir, hdir, hjoin⟩ := mem_map.1 (mem_of_find?_eq_some hfile)
  refine ⟨cfg, root, dir, hcfg, hroot, hdir, ?_⟩
  have hcontains := find?_some hfile
  simp only [Path.joinAll, foldl_cons, foldl_nil] at hjoin
  rw [← hjoin] at hcontains ⊢
  exact Files.liesBelow_join (plain_fileName hplain) hcontains

end Resolve

/-- A package with a file beside its only section. -/
def beside : Setting :=
  lone [(["lib", "d"], .dir), source ["x.js"] "", source ["lib", "x.js"] ""]

/-- A module in a directory of the section. -/
def nested : Module := ⟨⟨"lone", "lib", "d/main"⟩, "/lib/d/main.js", none⟩

end Linker

end AddonBuilder
