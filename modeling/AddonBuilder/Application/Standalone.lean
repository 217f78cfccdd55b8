import AddonBuilder.Application.Runner
import AddonBuilder.CommandLine.Help

/-!
# A browser by itself

A command of its own starts a browser with a profile and waits for it.
-/

namespace AddonBuilder.Application.Standalone

open Json Assoc
open CommandLine
open Session

def program (version : String) : Program where
  name := "mozrunner"
  usage := "mozrunner [options]"
  version := "mozrunner " ++ version
  switches := [ { short := some 'b', long := "binary", target := "binary", help := "Binary path." },
    { short := some 'p', long := "profile", target := "profile", help := "Profile path." },
    { short := some 'a', long := "addons", target := "addons", help := "Addons paths to install." },
    { long := "info"
      target := "info"
      help := "Print module information"
      effect := .set true
      initial := .bool false }]

/-- The facts about the command, from the data with which it was installed. -/
def facts (data : Assoc String String) : Except Defect (Assoc String String) := do
  let lines := match get? data "PKG-INFO" with
    | some t => ((Text.linesOf t).map Text.trimString).filter fun l =>
      l ≠ "" && !Text.beginsWith l "#"
    | none => []
  let told ← lines.foldlM (fun (told : Assoc String String) line =>
    match Text.cut? [':'] line.toList with
    | some (key, v) => return insert told (String.ofList key) (String.ofList v)
    | none => throw Defect.value) []
  return match get? data "requires.txt" with
    | some t => insert told "Dependencies" ("\n" ++ t)
    | none => told

def shownFacts : List String :=
  ["Name", "Version", "Summary", "Home-page", "Author", "Author-email", "License", "Platform",
    "Dependencies"]

def run (data : Assoc String String) (args : List String) : Command Unit := do
  let told ← ofExcept .defect (facts data)
  let p := program (← demand .key (get? told "Version"))
  let a ← ofExcept Complaint.fault (p.read [] (args.map Value.str))
  let (options, _) ← p.heed a
  let text (name : String) : Option String := match get? options name with
    | some (.text t) => some t.display
    | _ => none
  if (get? options "info") == some (.bool true) then
    shownFacts.forM fun key =>
      match get? told key with
      | some v => print (key ++ ": " ++ v)
      | none => pure ()
    leave 0
  let addons := ((text "addons").map (Text.splitString ',')).getD []
  let binary ← programFor .firefox (text "binary")
  let profile ← Profile.create (Product.profileSettings .firefox) (text "profile") addons []
  let runner : Runner := {
    binary
    names := Product.names? (← get).platform .firefox
    command := [binary, "-profile", profile.dir]
    args := some [] }
  runner.launch
  print ("Started: " ++ Text.joinStrings " " runner.command)
  let _ ← runner.wait firstProcess
  profile.clean

end AddonBuilder.Application.Standalone
