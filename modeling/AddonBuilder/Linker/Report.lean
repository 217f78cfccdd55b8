import AddonBuilder.Session.Basic

/-!
# What source files ask for

For each file: the names it requires in order, and the lines on which it does so.
-/

namespace AddonBuilder.Linker

open Session

def reportFile (path : String) : Command Unit := do
  let lines := Text.cutAfterLineFeed (← readSource path).toList
  let required := requirements lines
  let problem := chromeProblem? path lines
  if let some notes := problem then writeError notes
  print ("\n--- " ++ path)
  if problem.isSome then
    print "PROBLEMS"
    leave 1
  print ("requires: " ++ Text.joinStrings "," (sortedStrings (Assoc.keys required)))
  print ("locations: " ++ (Datum.table ((callLines required).map fun (name, line) =>
    (.text (Text.ofString name), .int line))).shown)

def report (paths : List String) : Command Unit := paths.forM reportFile

end AddonBuilder.Linker
