import AddonBuilder.Application.Output
import AddonBuilder.Application.Runner

/-!
# Applications on a device

The profile is pushed to the device file by file, and the application is started there by the name
of its package.
-/

namespace AddonBuilder.Application

open Session Text

/-- Where the profile goes on a device. -/
def deviceProfile : String := "/mnt/sdcard/jetpack-profile"

/-- What the names of the packages start with. -/
def packageStart : String := "org.mozilla."

def packageName? (line : List Char) : Option String :=
  let line := (dropStart? "package:".toList line).getD line
  let line := String.ofList (line.filter fun c => !asciiBlankChar c)
  if occursIn packageStart line then some (replaceString packageStart "" line) else none

def packagesOnDevice (bridge : String) : Command (List String) := do
  let (output, _) ← start [bridge, "shell", "pm list packages"]
  return (cutAfterLineFeed output.toList).filterMap packageName?

/-- Whether a package is among the processes of the device. -/
def runsOnDevice (bridge name : String) : Command Bool := do
  let (output, _) ← start [bridge, "shell", "ps"]
  let lines := (cutAfterLineFeed output.toList).map fun l => wordsOf (String.ofList l)
  search lines
where
  /-- Looks through lines of columns. -/
  search : List (List String) → Command Bool
    | [] => return false
    | columns :: rest =>
      match columns with
      | _ :: _ :: _ =>
        if columns.getLast?.any (occursIn name) then return true else search rest
      | _ => flaw .index

/-- The application that is wanted, or the best one, among those on a device. -/
def chooseApplication (wanted : String) (found : List String) : Command String := do
  match found with
  | [] => fail (.unsuitable "Unable to find any Firefox application on your device.")
  | first :: _ =>
    if wanted = "" then
      return (["firefox", "firefox_beta", "firefox_nightly"].find? found.contains).getD first
    if found.contains wanted then return wanted
    fail (.unsuitable ("Unable to find Firefox application with intent name '" ++ wanted ++
      "'\nAvailable ones are: " ++ joinStrings ", " found))

/-- Where a path below the profile goes on the device. -/
def devicePlace (f : Files) (profile path : String) : String :=
  let inside := Path.relative (f.absolute profile) (f.absolute path)
  if inside = "." then deviceProfile else Path.join deviceProfile inside

def pushVisit (f : Files) (bridge profile : String) (v : Files.Visit) : Command Unit := do
  let target := devicePlace f profile v.path
  v.files.forM fun name => do
    let _ ← start [bridge, "push", Path.join v.path name, Path.join target name]
    note "(wait)"
  v.dirs.forM fun name => do
    let _ ← start [bridge, "shell", "mkdir " ++ Path.join target name]

/-- Pushes a profile to the device, directory by directory. -/
def push (bridge profile : String) : Command Unit := do
  let f ← currentFiles
  (f.walk (fun _ => true) profile).forM (pushVisit f bridge profile)

/-- The runner for a device: the application is chosen, stopped if it runs, and given the profile.
-/
def deviceRunner (bridge : Option String) (profile : String) (args : List String) :
    Command Runner := do
  let some bridge := bridge.filter (· ≠ "")
    | fail (.unsuitable "You have to define `--binary` option set to the path to your ADB executable.")
  let (told, _) ← start [bridge]
  if !occursIn "Android Debug Bridge" told then
    fail (.unsuitable "`--binary` option should be the path to your ADB executable.")
  let wanted ← demand .index args.head?
  let shell (command : String) : Command Unit := do
    let _ ← start [bridge, "shell", command]
  shell "setprop log.redirect-stdio false"
  let name := packageStart ++ (← chooseApplication wanted (← packagesOnDevice bridge))
  print ("Launching mobile application with intent name " ++ name)
  if ← runsOnDevice bridge name then
    print "Killing running Firefox instance ..."
    shell ("am force-stop " ++ name)
    sleep (Binary64.ofInt 7)
  print "Pushing the addon to your device"
  shell ("rm -r " ++ deviceProfile)
  shell ("mkdir " ++ deviceProfile)
  push bridge profile
  return {
    binary := bridge
    names := Product.names? "" .fennec
    command := [bridge, "shell", "am start -a android.activity.MAIN -n " ++ name ++ "/" ++ name ++
      ".App --es args \"-profile " ++ deviceProfile ++ "\""]
    args := none }

/-- An application, ready to be started with arguments.  The first argument of a mobile one is its
name. -/
def runnerFor (p : Product) (binary : Option String) (profile : String) (args : List String) :
    Command Runner :=
  match p with
  | .fennec => deviceRunner binary profile args
  | .xulrunner => ownApplicationRunner binary profile args
  | p => desktopRunner p binary profile args

def showDeviceLog (verbose : Bool) : List (List Char) → Command Unit
  | [] => return ()
  | cs :: rest => do
    let line := String.ofList cs
    if occursIn "APPLICATION-QUIT" line then return ()
    if verbose then
      match LogLine.parse? line with
      | some l => print l.message
      | none => print (trimStringEnd line)
    else if let some l := ConsoleLine.parse? line then print l.message
    showDeviceLog verbose rest

end AddonBuilder.Application
