import AddonBuilder.Files.Path
import AddonBuilder.Text.Quoted

/-!
# Welcome

Whoever opens a shell for the tool is greeted, after a look at the surroundings: whether the
directories of the tool are where they are looked for.
-/

namespace AddonBuilder.Tool

/-- What the tool finds around it. -/
structure Surroundings where
  /-- The major version of the language that runs it. -/
  major : Int
  root : Option String
  programs : Option (List String)
  libraries : List String
  /-- Where the library that starts applications was found. -/
  runner : Option String

/-- What is told if the look at the surroundings fails for a reason. -/
def surroundingsFailed (reason : String) : List String := [
  "Verification of Add-on SDK environment failed (" ++ reason ++ ").",
  "Your SDK may not work properly."]

def welcome (s : Surroundings) : List String :=
  if s.major > 2 then
    ["Error: You appear to be using Python " ++ toString s.major ++
      ", but the Add-on SDK only supports the Python 2.x line."]
  else
    match s.root with
    | none =>
      ["Error: CUDDLEFISH_ROOT environment variable does not exist! It should point to the root of the " ++
        "Add-on SDK repository."]
    | some root =>
      match s.programs with
      | none => surroundingsFailed (Text.quotedString "PATH")
      | some programs =>
        let bin := Path.join root "bin"
        let library := Path.join root "python-lib"
        let notes :=
          (if programs.contains bin then [] else
            ["Warning: the Add-on SDK binary directory " ++ bin ++ " does not appear to be in your PATH. " ++
              "You may not be able to run 'cfx' or other SDK tools."]) ++
          (if s.libraries.contains library then [] else
            ["Warning: the Add-on SDK python-lib directory " ++ library ++ " does not appear to be in " ++
              "your sys.path, which is odd because I'm running from it."])
        match s.runner with
        | none => notes ++ surroundingsFailed "list index out of range"
        | some runner =>
          notes ++
          (if Text.beginsWith runner root then [] else
            ["Warning: your mozrunner package is installed at " ++ runner ++ ", which does not seem to be " ++
              "located inside the Jetpack SDK. This may cause problems, and you may want to uninstall the " ++
              "other version. See bug 556562 for more information."]) ++
          ["Welcome to the Add-on SDK. For the docs, visit " ++
            "https://developer.mozilla.org/en-US/Add-ons/SDK"]

end AddonBuilder.Tool
