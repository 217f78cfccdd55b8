import AddonBuilder.Package.Config

/-!
# Dependencies

The packages that a set of targets needs are found by a walk: the last name noted is looked at
first, a name seen before is passed over, and what a package lists is noted when it is first met.
-/

namespace AddonBuilder.Package

open Json

/-- The configuration of each package. -/
abbrev Packages := Assoc Text Config

/-- The name that a listed value stands for; a list or a table is no name. -/
def dependencyName : Value → Except Fault Text
  | .array _ | .object _ => wrongKind
  | v => .ok v.plain

/-- The names listed at a key; a missing key lists none. -/
def listedAt (cfg : Config) (key : String) : Except Fault (List Text) :=
  match Assoc.get? cfg key with
  | none => .ok []
  | some v => do (← asElements v).mapM dependencyName

/-- The values listed at a key; a missing key lists none. -/
def valuesAt (cfg : Config) (key : String) : Except Fault (List Value) :=
  match Assoc.get? cfg key with
  | none => .ok []
  | some v => asElements v

/-- The names of the packages that one asks for. -/
def dependencies (cfg : Config) : Except Fault (List Value) := do
  return (← valuesAt cfg "dependencies") ++ (← valuesAt cfg "extra_dependencies")

def unmet (pkgs : Packages) (met : List Text) : Packages :=
  pkgs.filter fun p => !met.contains p.1

theorem unmet_append_length_le (pkgs : Packages) (met : List Text) (name : Text) :
    (unmet pkgs (met ++ [name])).length ≤ (unmet pkgs met).length := by
  simp only [unmet, ← List.countP_eq_length_filter]
  refine List.countP_mono_left fun p _ h => ?_
  simp only [List.contains_append, Bool.not_or, Bool.and_eq_true] at h
  exact h.1

/-- Meeting a known package leaves fewer that have not been met. -/
theorem unmet_length_lt {pkgs : Packages} {met : List Text} {name : Text} {cfg : Config}
    (hm : met.contains name = false) (hk : Assoc.get? pkgs name = some cfg) :
    (unmet pkgs (met ++ [name])).length < (unmet pkgs met).length := by
  induction pkgs with
  | nil => simp at hk
  | cons p rest ih =>
    obtain ⟨key, c⟩ := p
    by_cases h : key = name
    · subst h
      have h' : key ∉ met := by simpa using hm
      have := unmet_append_length_le rest met key
      simp only [unmet, List.filter_cons] at this ⊢
      simp [h']
      simp at this
      omega
    · have hk' : Assoc.get? rest name = some cfg := by simpa [Assoc.get?, h] using hk
      have := ih hk'
      simp only [unmet, List.filter_cons] at this ⊢
      by_cases hmem : key ∈ met <;> simp [hmem, h] <;> simp at this <;> omega

/-- A package that was asked for, and by which one. -/
abbrev Note := Value × Option Text

/-- The fault of a noted value that is no known package; a list or a table cannot be looked up. -/
def notKnown : Note → Fault
  | (.array _, _) | (.object _, _) => .defect .kind
  | (v, requiredBy) => .unknown v.plain requiredBy

/-- The walk over the notes, the last one first in the list.  Gives the packages met, in the order
of meeting. -/
def meetAll (pkgs : Packages) (met : List Text) (notes : List Note) : Except Fault (List Text) :=
  match notes with
  | [] => .ok met
  | (.text name, requiredBy) :: rest =>
    if _hm : met.contains name then meetAll pkgs met rest
    else match _hk : Assoc.get? pkgs name with
      | none => .error (notKnown (.text name, requiredBy))
      | some cfg =>
        match dependencies cfg with
        | .error e => .error e
        | .ok listed =>
          meetAll pkgs (met ++ [name]) (listed.reverse.map (·, some name) ++ rest)
  | note :: _ => .error (notKnown note)
termination_by ((unmet pkgs met).length, notes.length)
decreasing_by
  · apply Prod.Lex.right
    simp
  · apply Prod.Lex.left
    exact unmet_length_lt (by simpa using _hm) _hk

/-- The packages that some targets need, in the order they are met. -/
def requiredBy (pkgs : Packages) (targets : List Text) : Except Fault (List Text) :=
  meetAll pkgs [] (targets.reverse.map fun t => (.text t, none))

end AddonBuilder.Package
