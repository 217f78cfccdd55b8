import AddonBuilder.Package.Dependencies

/-!
# Metadata of packages

The part of each description that is shipped with an add-on.
-/

namespace AddonBuilder.Package

open Json

/-- The members that are shipped, if they are given. -/
def metadataKeys : List String :=
  ["name", "description", "keywords", "author", "version", "developers", "translators",
    "contributors", "license", "homepage", "icon", "icon64", "main", "directories", "permissions",
    "preferences"]

/-- Checks permissions: what is allowed for other domains has to be a list. -/
def checkPermissions (permissions : Value) : Except Fault Unit :=
  match permissions with
  | .object members =>
    match given? members "cross-domain-content" with
    | none | some (.array _) => .ok ()
    | some _ => .error (.permissions members)
  | _ => wrongKind

def metadataOf (cfg : Config) : Except Fault Members := do
  let kept ← metadataKeys.mapM fun key => do
    match given? cfg key with
    | none => return none
    | some v =>
      if key = "permissions" then checkPermissions v
      return some (Text.ofString key, v)
  return kept.filterMap id

def metadata (pkgs : Packages) (names : List Text) : Except Fault Members := do
  let parts ← names.mapM fun name => do
    match Assoc.get? pkgs name with
    | none => throw (.defect .key)
    | some cfg => return (name, Value.object (← metadataOf cfg))
  return Assoc.ofList parts

end AddonBuilder.Package
