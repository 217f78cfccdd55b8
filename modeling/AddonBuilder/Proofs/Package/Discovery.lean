import AddonBuilder.Package.Discovery
import AddonBuilder.Proofs.Outcome

/-!
# Packages under their names

A package that is found is filed under the name that its description gives, and so is the target. So
what is found under a name has that name (`filed_of_discover`).
-/

namespace AddonBuilder.Package

/-- Every package stands under its name. -/
def Filed (pkgs : Packages) : Prop :=
  ∀ key cfg owner, Assoc.get? pkgs key = some cfg → name cfg = .ok owner → owner = key

variable {files : Files} {pkgs : Packages}

theorem filed_nil : Filed [] := by
  intro key cfg owner hget
  cases hget

theorem Filed.insert (h : Filed pkgs) {owner : Text} {cfg : Config}
    (hname : name cfg = .ok owner) : Filed (Assoc.insert pkgs owner cfg) := by
  intro key cfg' owner' hget hname'
  rw [Assoc.get?_insert] at hget
  split at hget
  · rename_i hkey
    cases hget
    cases hname.symm.trans hname'
    exact hkey
  · exact h key cfg' owner' hget hname'

theorem filed_of_add {s s' : Search} {path : String} (hadd : s.add files path = .ok s')
    (h : Filed s.found) : Filed s'.found := by
  unfold Search.add at hadd
  obtain ⟨cfg, -, hadd⟩ := bind_ok_iff.1 hadd
  obtain ⟨owner, hname, hadd⟩ := bind_ok_iff.1 hadd
  split at hadd
  · obtain ⟨other, -, hadd⟩ := bind_ok_iff.1 hadd
    obtain ⟨same, -, hadd⟩ := bind_ok_iff.1 hadd
    split at hadd
    · cases hadd
      exact h
    · cases hadd
  · obtain ⟨more, -, hadd⟩ := bind_ok_iff.1 hadd
    cases hadd
    exact h.insert hname

theorem filed_of_run {fuel : Nat} {s : Search} (hrun : s.run files fuel = .ok pkgs)
    (h : Filed s.found) : Filed pkgs := by
  induction fuel generalizing s with
  | zero =>
    cases hrun
    exact h
  | succ fuel ih =>
    unfold Search.run at hrun
    split at hrun
    · cases hrun
      exact h
    · obtain ⟨paths, -, hrun⟩ := bind_ok_iff.1 hrun
      obtain ⟨next, hnext, hrun⟩ := bind_ok_iff.1 hrun
      have hkeeps := foldlM_rel (R := fun s s' : Search => Filed s.found → Filed s'.found)
        (fun _ h => h) (fun _ _ _ h h' hfiled => h' (h hfiled))
        (fun _ _ _ _ hadd => filed_of_add hadd) hnext
      exact ih hrun (hkeeps h)

/-- **The packages that are found stand under their names.** -/
theorem filed_of_discover {library root : String} {target : Config} {searchPath : List String}
    (h : discover files library root target searchPath = .ok pkgs) : Filed pkgs := by
  unfold discover at h
  obtain ⟨own, -, h⟩ := bind_ok_iff.1 h
  obtain ⟨owner, hname, h⟩ := bind_ok_iff.1 h
  exact filed_of_run h (filed_nil.insert hname)

end AddonBuilder.Package
