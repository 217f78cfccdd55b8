import AddonBuilder.Defect
import AddonBuilder.Json.Shown

/-!
# What can be wrong with packages

The causes for which a package, a set of packages or the build of one is refused, and the messages
about them.
-/

namespace AddonBuilder.Package

open Json

/-- Why a package cannot have a name. -/
inductive BadName where
  | upperCase (name : Text)
  | character (name : Text)
deriving DecidableEq, Repr

def BadName.message : BadName → Text
  | upperCase name => "Error: the name of your package contains upper-case letters.\n" ++ rule name
  | character name => "Error: the name of your package contains an invalid character.\n" ++ rule name
where
  /-- The rule for names, and the name at hand. -/
  rule (name : Text) : Text :=
    "Package names can contain only lower-case letters, numbers, underscores, and dashes.\n" ++
      "Current package name: " ++ name

/-- Why packages cannot be read or put together. -/
inductive Fault where
  | defect (d : Defect)
  /-- A package has no such field. -/
  | field (name : Text)
  | noManifest (dir : String)
  /-- A file holds no JSON object; the reason is missing where bytes cannot be decoded. -/
  | unreadable (file : String) (reason : Option Text)
  /-- Two directories hold packages of the same name. -/
  | duplicate (path other : String)
  /-- A package is not known; without `requiredBy` it was asked for itself. -/
  | unknown (name : Text) (requiredBy : Option Text)
  | badName (bad : BadName)
  /-- The permission for other domains is no list. -/
  | permissions (given : Members)
  /-- A section of a package has two directories. -/
  | sectionTwice (pkg sec : Text)
  /-- A package names code that cannot be loaded. -/
  | noModule
  /-- The build ends with an explanation for the user. -/
  | stopped (explanation : Text)
deriving Repr

/-- The text of a fault; defects have none. -/
def Fault.message? : Fault → Option Text
  | defect _ => none
  | field name => some name
  | noManifest dir =>
    some ("package.json not found in \"" ++ Text.ofString dir ++ "\"")
  | unreadable file reason =>
    reason.map fun r => r ++ " when reading \"" ++ Text.ofString file ++ "\""
  | duplicate path other => some (Datum.tuple [.text path, .text other]).shown
  | unknown name requiredBy =>
    some (name ++ match requiredBy with
      | some by_ => " (required by '" ++ by_ ++ "')"
      | none => " (specified as target)")
  | badName bad => some bad.message
  | permissions given =>
    some ("Error: `cross-domain-content` permissions in  package.json file must be an array of " ++
      "strings:\n  " ++ (Value.object given).shown)
  | sectionTwice pkg sec =>
    some (Datum.tuple [.text "package's section already defined", .text pkg, .text sec]).shown
  | noModule | stopped _ => none

end AddonBuilder.Package
