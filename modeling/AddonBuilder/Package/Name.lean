import AddonBuilder.Package.Fault
import AddonBuilder.Text.Lower

/-!
# Names of packages

A package's name becomes the host name of a resource address, so it must consist of lower-case
letters, digits, underscores and dashes.
-/

namespace AddonBuilder.Package

def isNamePoint (p : CodePoint) : Bool :=
  (0x61 ≤ p.val && p.val ≤ 0x7A) || (0x30 ≤ p.val && p.val ≤ 0x39) || p.val == 0x5F || p.val == 0x2D

/-- Checks a name.  One line feed at the end of an otherwise good name is let through. -/
def checkName (name : Text) : Except BadName Unit :=
  if Text.lower name.display != name.display then .error (.upperCase name)
  else
    let body := (Text.dropEnd? [0x0A] name).getD name
    if body.isEmpty || !body.all isNamePoint then .error (.character name) else .ok ()

end AddonBuilder.Package
