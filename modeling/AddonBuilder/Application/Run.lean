import AddonBuilder.Application.Device
import AddonBuilder.Text.ShellWords

/-!
# Running an add-on

An add-on is packed and installed into a profile, with which the application is started.
-/

namespace AddonBuilder.Application

open Json Settings Assoc Text
open Session

/-- What is asked of a run. -/
structure Run where
  /-- The directory with the files that every add-on has. -/
  template : String
  description : Bytes
  options : Members
  application : Value
  binary : Option String := none
  profile : Option String := none
  verbose : Bool := false
  parseable : Bool := false
  limited : Bool := false
  logFile : Option String := none
  addons : List String := []
  /-- Further arguments for the application, as a shell reads them. -/
  args : Option String := none
  showOnly : Bool := false
  /-- Whether the application is left running. -/
  stay : Bool := false
  mobile : Bool := false
  mobileName : Option String := none
  root : String
  toolDir : String
  testing : Bool := false
  /-- Whether the library's own modules are used in place of those shipped. -/
  overload : Bool := false
  withLibrary : Bool := true
  pkg : String
  separate : Bool := false
  offline : Bool := false

/-- The settings that have modules looked up in directories, added to others. -/
def withModulePaths (root application : String) (id : Text) (paths : List (String × String))
    (s : Settings) : Settings :=
  let scheme := if beginsWith root "/" then "file://" else "file:///"
  paths.foldl (fun s (name, path) =>
    let key := "extensions.modules." ++ id ++ ".path" ++ (if name = "" then "" else "." ++ name)
    let place := if application = "fennec-on-device" then
        "file://" ++ deviceProfile ++ "/overloads/" ++ name
      else scheme ++ replaceString "\\" "/" path ++ "/"
    insert s key (Value.str place)) s

/-- How long nothing may be put out, in seconds. -/
def outputLimit : Nat := 300

/-- How long a run may take, in seconds. -/
def runLimit : Nat := 5400

/-- How long each look at the application waits, in seconds. -/
def pause : Binary64 := Binary64.nearest false (1 / 20)

def mobileWarning : String := joinStrings "\n" [ "",
  "  WARNING: Firefox Mobile support is still experimental.",
  "  If you would like to run an addon on this platform, use --force-mobile flag:",
  "",
  "    cfx --force-mobile"]

def versionWarning : String := joinStrings "\n" [ "",
  "  WARNING: cannot determine Firefox version; please ensure you are running",
  "  a Mozilla application equivalent to Firefox 4.0 or greater.",
  "  "]

def oldWarning : String := joinStrings "\n" [ "",
  "  cfx requires Firefox 4 or greater and is unable to find a compatible",
  "  binary. Please install a newer version of Firefox or provide the path to",
  "  your existing compatible version with the --binary flag:",
  "",
  "    cfx --binary=PATH_TO_FIREFOX_BINARY"]

/-- The applications by the names that runs use: a mobile one must be said to be on a device. -/
def Product.named? : Value → Option Product
  | .text t =>
    match t.display with
    | "fennec-on-device" => some .fennec
    | "fennec" => none
    | name => Product.ofName? name
  | _ => none

namespace Run

def settings (r : Run) : Settings :=
  let s := common
  let s := if r.testing then merge s tests else s
  let s := if r.offline then merge s noConnections else s
  let start := "browser.tabs.remote.autostart"
  if r.separate then insert s start (.bool true)
  else [start, start ++ ".1", start ++ ".2"].foldl
    (fun s (name : String) => insert s name (.bool false)) s

def productSettings : Product → Settings
  | .firefox => browser
  | .thunderbird => mail
  | .fennec => Settings.mobile
  | .xulrunner => []

/-- The directories in which modules are looked up in place of those shipped. -/
def modulePaths (r : Run) : List (String × String) :=
  (if r.overload then [("", Path.join r.root "lib")] else []) ++
  (if r.testing then [("tests", Path.join r.root "test")] else [])

/-- What was seen so far of an application that runs. -/
structure Watch where
  log : Follower := {}
  out : Follower := {}
  /-- When something was put out last. -/
  lastOutput : Binary64
  test : String := "Jetpack startup"

/-- The files to which the application writes. -/
structure Places where
  log : String
  out : String
  result : String

def show_ (r : Run) (w : Watch) : Option String → Command Watch
  | none => return w
  | some added => do
    writeError added
    let w := { w with lastOutput := (← get).clock }
    match if r.testing && r.parseable then testName? added.toList else none with
    | some test => return { w with test }
    | none => return w

/-- Ends a run that takes too long. -/
def timeOut {α : Type} (r : Run) (test message : String) : Command α := do
  if r.parseable then
    writeError ("TEST-UNEXPECTED-FAIL | " ++ test ++ " | " ++ message ++ "\n")
  fail (.general message)

def exceeds (now since : Binary64) (seconds : Nat) : Bool :=
  (Binary64.ofInt seconds).lt (now.sub since)

/-- What is said of a run that takes too long. -/
def complaint? (r : Run) (start lastOutput now : Binary64) : Option String :=
  if !r.limited then none
  else if exceeds now lastOutput outputLimit then
    some ("Test output exceeded timeout (" ++ toString outputLimit ++ "s).")
  else if exceeds now start runLimit then
    some ("Test run exceeded timeout (" ++ toString runLimit ++ "s).")
  else none

/-- The results that end a run. -/
def isVerdict (result : String) : Bool := result = "OK" || result = "FAIL"

/-- The end of a look: a verdict is given unless the run takes too long. -/
def judge (r : Run) (start : Binary64) (w : Watch) (result : String) :
    Command (Watch × Option String) := do
  match r.complaint? start w.lastOutput (← get).clock with
  | some message => r.timeOut w.test message
  | none => return (w, if isVerdict result then some result else none)

/-- One look at the application: the result, if there is one. -/
def glance (r : Run) (places : Places) (start : Binary64) (w : Watch) :
    Command (Watch × Option String) := do
  sleep pause
  let strings := (← get).strings
  let (added, log) := look strings (← currentFiles) places.log w.log
  let w ← r.show_ { w with log } (← ofExcept .defect added)
  let (added, out) := look strings (← currentFiles) places.out w.out
  let w ← r.show_ { w with out } (← ofExcept .defect added)
  let result ← if (← currentFiles).contains places.result then readString places.result else pure ""
  if result ≠ "" && !isVerdict result then
    writeError ("Hrm, resultfile (" ++ places.result ++ ") contained something weird (" ++
      toString result.length ++ " bytes)\n")
    writeError ("'" ++ result ++ "'\n")
  r.judge start w result

/-- Looks at the application until there is a result; each look takes an event. -/
def watch (r : Run) (places : Places) (start : Binary64) : Nat → Watch → Command String
  | 0, _ => fail .stalled
  | n + 1, w => do
    match ← r.glance places start w with
    | (_, some result) => return result
    | (w, none) => watch r places start n w

/-- What follows the watch: the application is waited for, or killed after a failure. -/
def ending (r : Run) (runner : Runner) : Except Stop String → Command String
  | .error stop => do
    if !r.stay then
      let _ ← runner.kill firstProcess
    throw stop
  | .ok result => do
    let process ← runner.wait firstProcess
    let _ ← attempt (runner.kill process)
    return result

/-- Runs the application to its result, waits for its end and cleans up. -/
def supervise (r : Run) (runner : Runner) (profile : Profile) (places : Places) (start : Binary64) :
    Command String := do
  let looks := (← get).events.length + 1
  let found ← attempt (r.watch places start looks { lastOutput := start })
  let result ← attempt (r.ending runner found)
  profile.clean
  ExceptT.mk (return result)

def onDevice (r : Run) (runner : Runner) (profile : Profile) : Command Int := do
  let _ ← start [runner.binary, "logcat", "-c"]
  runner.launch
  profile.clean
  let (log, _) ← start [runner.binary, "logcat", "stderr:V stdout:V GeckoConsole:V *:S"]
  showDeviceLog r.verbose (cutAfterLineFeed log.toList)
  printError "Program terminated successfully."
  return 0

/-- Whether the application that tells its version can run the add-on; one with a known version has
add-ons for other versions allowed. -/
def accept (r : Run) (profile : Profile) (output : String) : Command Bool := do
  match told? output.toList with
  | none =>
    print versionWarning
    return true
  | some t =>
    if t.product = "Fennec" then
      if !r.mobile then print mobileWarning
      return r.mobile
    if t.major < 4 then
      print oldWarning
      return false
    if let some branch := branch? t.version then
      let name := "extensions.checkCompatibility." ++ branch
      profile.addSettings (insert profile.settings name (.bool false))
    return true

/-- What is said after a run, and the code that it gives. -/
def report (start : Binary64) (result : String) : Command (Option Int) := do
  printError ("Total time: " ++ ((← get).clock.sub start).fixed 6 ++ " seconds")
  if result = "OK" then
    printError "Program terminated successfully."
    return some 0
  printError "Program terminated unsuccessfully."
  return some (-1)

/-- Runs the application on this computer.  The code is missing where it was not accepted. -/
def onDesktop (r : Run) (runner : Runner) (profile : Profile) (places : Places) (start : Binary64) :
    Command (Option Int) := do
  printError ("Using binary at '" ++ runner.binary ++ "'.")
  let version ← outputOf (runner.command ++ ["-v"])
  if !(← r.accept profile version) then return none
  printError ("Using profile at '" ++ profile.dir ++ "'.")
  if r.showOnly then
    print "To launch the application, enter the following command:"
    print (joinStrings " " runner.command ++ " " ++ joinStrings " " (runner.args.getD []))
    return some 0
  runner.launch
  report start (← r.supervise runner profile places start)

def argumentsFor (r : Run) (p : Product) : Command (List String) := do
  let own := match p with
    | .xulrunner => [Path.join r.template "application.ini"]
    | .fennec => [r.mobileName.getD ""]
    | _ => []
  let foreground := if (← get).platform = "darwin" && p ≠ .xulrunner then ["-foreground"] else []
  let further ← match r.args.filter (· ≠ "") with
    | none => pure []
    | some s => ofExcept (fun e => .unsuitable e.message) (shellWords s)
  return own ++ foreground ++ further

/-- Makes the application ready to be started with a profile. -/
def prepare (r : Run) (p : Product) (archive : String) (profile : Profile)
    (args : List String) : Command Runner := do
  change fun f => f.removeFile? archive
  if p = .fennec then
    r.modulePaths.forM fun (name, path) =>
      copyDir path (Path.joinAll profile.dir ["overloads", name])
  runnerFor p r.binary profile.dir args

/-- What follows once there is a profile. -/
def withProfile (r : Run) (p : Product) (archive : String) (profile : Profile)
    (args : List String) (places : Places) (start : Binary64) : Command (Option Int) := do
  let runner ← r.prepare p archive profile args
  if p = .fennec then return some (← r.onDevice runner profile)
  r.onDesktop runner profile places start

/-- **A run**, with the code with which it ends. -/
def start (r : Run) : Command (Option Int) := do
  let some p := Product.named? r.application
    | fail (.unsuitable ("Unknown app: " ++ r.application.plain))
  let homes := (← get).homes
  let r := { r with binary := r.binary.map (Path.expandUser homes) }
  let settings := r.settings
  if p = .fennec && !r.mobile then
    print mobileWarning
    return some 0
  let settings := merge settings (productSettings p)
  let args ← r.argumentsFor p
  let result ← if p = .fennec then pure none else some <$> temporaryFile "harness-result-"
  let options := match result with
    | some path => insert r.options "resultFile" (Value.str path)
    | none => r.options
  modify fun s => { s with watched := { s.watched with result } }
  let log ← match r.logFile.filter (· ≠ "") with
    | some path => pure path
    | none => do
      let path ← temporaryFile "harness-log-"
      modify fun s => { s with watched := { s.watched with log := some path } }
      pure path
  -- The log is followed under the name that was given, in which `~` stands for no directory.
  let followed := log
  let log := (← currentFiles).absolute (Path.expandUser homes log)
  removeLater log
  if (← currentFiles).contains log then change fun f => f.removeFile? log
  let args := if r.showOnly then args ++ ["-no-remote"] else args
  let archive ← temporaryName "tmp" "cfx-tmp.xpi"
  let (files, options) ← ofExcept .extension (Extension.write (← currentFiles) {
    template := r.template
    description := r.description
    target := archive
    withLibrary := r.withLibrary
    chromeFrom := r.pkg } options)
  setFiles files
  let began := (← get).clock
  let out ← temporaryFile "harness-stdout-"
  modify fun s => { s with watched := { s.watched with out := some out } }
  removeLater out
  let addons := r.addons ++ [archive] ++
    (if p = .fennec then [Path.join r.toolDir "mobile-utils"] else [])
  let id ← match get? options "jetpackID" with
    | some (.text t) => pure t
    | some _ => flaw .kind
    | none => flaw .key
  let settings := withModulePaths r.root r.application.plain.display id r.modulePaths settings
  let profile ← Profile.create p.profileSettings r.profile addons settings
  r.withProfile p archive profile args ⟨followed, out, result.getD ""⟩ began

end Run

end AddonBuilder.Application
