import AddonBuilder.Application.Run
import AddonBuilder.Linker.Manifest
import AddonBuilder.Package.Metadata
import AddonBuilder.Release.Basic
import AddonBuilder.Tool.Config
import AddonBuilder.Tool.Options

/-!
# The command

The tool starts a package, packs one as an archive, runs one in an application, or runs tests: those
of a package, or of all examples, add-ons and packages of the library.
-/

namespace AddonBuilder.Tool

open Json Text Assoc Value Package Path
open Session

/-- Where the tool itself is installed. -/
structure Home where
  root : String
  versionFile : String
  toolDir : String

def option (options : Members) (name : String) : Value := (get? options name).getD .null

def isOn (options : Members) (name : String) : Bool := (option options name).isGiven

def optionText (options : Members) (name : String) : Command (Option String) :=
  match option options name with
  | .null => return none
  | .text t => return some t.display
  | _ => flaw .kind

def givenText (options : Members) (name : String) : Command (Option String) := do
  if isOn options name then optionText options name else return none

def textsOf (v : Value) : Command (List String) :=
  match v.elements? with
  | none => flaw .kind
  | some items => items.mapM fun
    | .text t => pure t.display
    | _ => flaw .kind

/-- The options and words of a command line, and the release of the tool. -/
structure Wish where
  options : Members
  words : List Value
  release : Release.Revision

/-- What a command line asks for.  A file may add arguments, and then all are read again. -/
def wish (home : Home) (given : Members) (l : List Value) : Command Wish := do
  let release ← Release.find home.versionFile Release.unfilled
  let version : Text := "Add-on SDK " ++ release.version ++ " (" ++ release.full ++ ")"
  let start : Command Members := do
    let lists := (← get).collected.map fun (k, v) => (ofString k, array v)
    return merge given lists
  let (options, words) ← args version (← start) l
  let further ← namedArguments home.root (option options "config")
  if further.isEmpty then return { options, words, release }
  let (options, words) ← args version (← start) (l ++ further)
  return { options, words, release }

/-- What is done with the program that was built. -/
inductive Work where
  | pack
  | test
  | run
  | testRun
deriving DecidableEq, Repr

def Work.name : Work → String
  | pack => "xpi"
  | test => "test"
  | run => "run"
  | testRun => "testrun"

def Work.named? (v : Value) : Option Work :=
  [pack, test, run, testRun].find? fun w => v == str w.name

def packageDir (options : Members) : Command String := do
  let files ← currentFiles
  let dir ← match ← givenText options "pkgdir" with
    | some d => pure (files.absolute d)
    | none =>
      match packageAbove? files files.herePath with
      | some d => pure d
      | none =>
        printError "cannot find 'package.json' in the current directory or any parent."
        leave 1
  if !files.contains (join dir manifestName) then
    printError ("cannot find 'package.json' in " ++ dir ++ ".")
    leave 1
  return dir

def packageConfig (work : Work) (options : Members) (dir : String) : Command Members := do
  let cfg ← ofPackage (load (← currentFiles) dir)
  let cfg ← match ← givenText options "manifest_overload" with
    | some path => do pure (merge cfg (← ofPackage (loadMembers (← currentFiles) path)))
    | none => pure cfg
  let cfg := if work = .test && !contains cfg "tests" then
    insert cfg "tests" (.array []) else cfg
  if work ≠ .test && !contains cfg "main" && !isOn options "templatedir" then
    printError "package.json does not have a 'main' entry."
    leave 1
  return cfg

def ensureIdentifier (work : Work) (dir : String) : Command Unit := do
  if work ≠ .test then
    if ← identify (join dir manifestName) then
      printError ("package.json modified: please re-run 'cfx " ++ work.name ++ "'")
      leave 1

def loaderPath : String := "lib/sdk/loader/cuddlefish.js"

/-- The module that loads the others, which is linked too. -/
def loader (pkgs : Packages) : Command Linker.ExtraModule := do
  let library ← demand .key (get? pkgs libraryName)
  if (← ofPackage (field library "loader")) != str loaderPath then flaw .assumption
  let root ← ofPackage (rootDir library)
  return ⟨libraryName, "lib", "sdk/loader/cuddlefish", join root loaderPath⟩

def linkPackage (setting : Linker.Setting) (scope : Linker.Scope) : Command Linker.Manifest := do
  let (result, manifest) := Linker.link setting scope
  writeError manifest.notes
  match result with
  | .ok () => return manifest
  | .error (.fault (.notFound n)) =>
    print n.message
    leave 1
  | .error (.fault .chrome) => leave 1
  | .error stop => fail (.linker stop)

/-- The options that go on to the program that starts the add-on. -/
def inheritedOptions (work : Work) : List String :=
  ["verbose", "enable_e10s", "parseable", "check_memory", "no_quit", "abort_on_missing"] ++
    (if work = .test then ["iterations", "filter", "profileMemory", "stopOnError"] else [])

/-- An add-on that is ready to be packed or run. -/
structure Prepared where
  work : Work
  options : Members
  dir : String
  cfg : Members
  manifest : Linker.Manifest
  /-- The options for the program that starts the add-on. -/
  harness : Members
  /-- The directory with the files that every add-on has. -/
  template : String
  description : Markup.Document

/-- The options as they are for a package: for one that is worked on in the library itself, the
library's own modules are used. -/
def optionsFor (home : Home) (dir : String) (options : Members) : Command Members := do
  let set (l : List (String × Bool)) (o : Members) : Members :=
    l.foldl (fun o (name, b) => insert o name (.bool b)) o
  let options := if (← currentFiles).herePath = home.root then
    set [("bundle_sdk", true), ("force_use_bundled_sdk", false), ("overload_modules", true)] options
    else options
  return if dir = home.root then
    set [("bundle_sdk", true), ("overload_modules", true)] options else options

def templateDir (home : Home) (options : Members) (dir : String) : Command String := do
  let files ← currentFiles
  match ← givenText options "templatedir" with
  | some d => return files.absolute d
  | none =>
    let own := join dir "app-extension"
    return if files.contains own then own
      else join home.toolDir "../../app-extension"

/-- The options with a mark if the modules of the library that are shipped must be used. -/
def withBundledMark (options harness : Members) : Command Members := do
  if !isOn options "force_use_bundled_sdk" then return harness
  if !(option harness "is-sdk-bundled").isGiven then
    printError "--force-use-bundled-sdk can't be used if sdk isn't bundled."
    leave 1
  if isOn options "overload_modules" then
    printError "--force-use-bundled-sdk and --overload-modules can't be used at the same time."
    leave 1
  return insert harness "force-use-bundled-sdk" (.bool true)

def prepare (home : Home) (work : Work) (w : Wish) : Command Prepared := do
  let dir ← packageDir w.options
  let cfg ← packageConfig work w.options dir
  let searched ← textsOf (option w.options "packagepath")
  let pkgs ← ofPackage (discover (← currentFiles) home.root home.root cfg searched)
  let name ← ofPackage (Package.name cfg)
  ensureIdentifier work dir
  let id ← ofExcept .defect (publishedId (← get).random cfg)
  let extra : List Text ← match ← givenText w.options "extra_packages" with
    | some l => pure ((splitString ',' l).map ofString)
    | none => pure []
  let runner ← if work = .test then textsOf (.array [option w.options "test_runner_pkg"]) else pure []
  let cfg := if extra.isEmpty then cfg
    else insert cfg "extra_dependencies" (.array (extra.map .text))
  let pkgs := insert pkgs name cfg
  let needed ← ofPackage (requiredBy pkgs (name :: runner.map ofString ++ extra))
  let manifest ← linkPackage {
      files := ← currentFiles
      strings := (← get).strings
      target := cfg
      pkgs
      available := needed
      abortOnMissing := isOn w.options "abort_on_missing" }
    { tests := work = .test, extra := [← loader pkgs] }
  let linked := if work = .test then needed else manifest.pkgs.map ofString
  let used := extra.foldl (fun l x => if l.contains x then l else l ++ [x]) linked
  let (build, pkgs) ← ofPackage (build (← currentFiles) {
      running := work = .test
      dependencyTests := isOn w.options "dep_tests" } pkgs name used)
  let cfg := (get? pkgs name).getD cfg
  let start : Members := [("jetpackID", id), ("staticArgs", option w.options "static_args"),
    ("name", .text name)].map fun (k, v) => (ofString k, v)
  let harness := merge start build.members
  let options ← optionsFor home dir w.options
  let (main, mainPath) := if work = .test then
      (str "sdk/test/runner", str "sdk/test/runner")
    else (option cfg "main", (manifest.top.map str).getD .null)
  let harness := insert (insert harness "main" main) "mainPath" mainPath
  let harness := (inheritedOptions work).foldl
    (fun (h : Members) (name : String) => insert h name (option options name)) harness
  let harness := insert harness "metadata" (.object (← ofPackage (metadata pkgs used)))
  let harness := insert harness "sdkVersion" (str w.release.version)
  ofPackage (loadPlugins pkgs used)
  let template ← templateDir home options dir
  let harness := insert harness "manifest" (.object (← ofExcept .defect (manifest.members false)))
  let bundled := if isOn options "bundle_sdk" then option options "bundle_sdk"
    else option options "no_strip_xpi"
  let harness ← withBundledMark options (insert harness "is-sdk-bundled" bundled)
  let .text id := id | flaw .kind
  let address ← optionText options "update_url"
  let description ← ofExcept .install (Install.describeFrom (← currentFiles) template cfg {
    id
    updateAddress := address.map ofString
    mobile := isOn options "enable_mobile" })
  return { work, options, dir, cfg, manifest, harness, template, description }

namespace Prepared

def name (p : Prepared) : Command String := return (← ofPackage (Package.name p.cfg)).display

def announceUpdate (p : Prepared) : Command Unit := do
  let some link ← givenText p.options "update_link" | return ()
  if !beginsWith link "https" then
    fail (.badOption (some ("--update-link must start with 'https': " ++ link)))
  let path := (← p.name) ++ ".update.rdf"
  print ("Exporting update description to " ++ path ++ ".")
  match Install.addUpdate Install.emptyUpdate p.description (str link) with
  | (_, some d) => flaw d
  | (update, none) =>
    writeBytes path []
    writeText path (← ofExcept .defect update.write)

/-- The options that the user adds, each a key and a value. -/
def extraOptions (p : Prepared) : Command Members := do
  let l ← textsOf (option p.options "extra_harness_option_args")
  l.foldlM (fun m kv =>
    match cut? ['='] kv.toList with
    | some (k, v) => return insert m (String.ofList k) (str (String.ofList v))
    | none => flaw .value) []

def descriptionBytes (p : Prepared) : Command Bytes := ofExcept .defect p.description.bytes

def pack (p : Prepared) : Command Unit := do
  p.announceUpdate
  let used ← ofExcept .defect (p.manifest.usedFiles (isOn p.options "bundle_sdk"))
  let extra ← p.extraOptions
  let target ← match ← givenText p.options "output_file" with
    | some path => pure path
    | none => do pure ((← p.name) ++ ".xpi")
  print ("Exporting extension to " ++ target ++ ".")
  let (files, _) ← ofExcept .extension (Extension.write (← currentFiles) {
    template := p.template
    description := ← p.descriptionBytes
    target
    limit := if isOn p.options "no_strip_xpi" then none else some used
    extra
    chromeFrom := p.dir } p.harness)
  setFiles files

def isOffline (p : Prepared) : Bool :=
  let wanted := option p.options "no_connections"
  if wanted == str "default" then p.work ≠ .run else wanted == str "on"

def toRun (p : Prepared) (home : Home) : Command Application.Run := do
  let files ← currentFiles
  let text := optionText p.options
  let addons ← match ← text "addons" with
    | none => pure []
    | some l => pure (splitString ',' l)
  return {
    template := p.template
    description := ← p.descriptionBytes
    options := p.harness
    application := option p.options "app"
    binary := ← text "binary"
    profile := (← givenText p.options "profiledir").map files.absolute
    verbose := isOn p.options "verbose"
    parseable := isOn p.options "parseable"
    limited := p.work = .test || p.work = .testRun
    logFile := ← givenText p.options "logfile"
    addons
    args := ← givenText p.options "cmdargs"
    showOnly := isOn p.options "no_run"
    stay := isOn p.options "no_quit"
    mobile := isOn p.options "enable_mobile"
    mobileName := ← givenText p.options "mobile_app_name"
    root := home.root
    toolDir := home.toolDir
    testing := p.work = .test
    overload := isOn p.options "overload_modules"
    withLibrary := isOn p.options "bundle_sdk"
    pkg := p.dir
    separate := isOn p.options "enable_e10s" || (option p.cfg "e10s").isGiven
    offline := p.isOffline }

def programHelp : Text :=
  "I can't find the application binary in any of its default locations\n" ++
  "on your system. Please specify one using the -b/--binary option."

/-- Runs an add-on; gives the code to leave with. -/
def run (p : Prepared) (home : Home) : Command (Option Int) := do
  match ← attempt (do (← p.toRun home).start) with
  | .ok code => return code
  | .error stop =>
    match stop with
    | .failed (.general message) =>
      if beginsWith message.display "Mozrunner could not locate your binary" then
        printError programHelp
        return some (-1)
      throw stop
    | .failed f =>
      match f.blame? with
      | some reason =>
        print "\nA given cfx option has an inappropriate value:"
        printError ("  " ++ intercalate "  \n  " (pieces (· = 0x0A) reason))
        return some (-1)
      | none => throw stop
    | _ => throw stop

end Prepared

def perform (home : Home) (work : Work) (w : Wish) : Command Unit := do
  let p ← prepare home work w
  if work = .pack then
    p.pack
    leave 0
  match ← p.run home with
  | some code => leave code
  | none => throw (.left .none)

/-! ## Tests of several packages -/

def fails (c : Command Unit) : Command Bool := do
  match ← attempt c with
  | .ok () => return false
  | .error (.left code) => return code ≠ .number 0
  | .error stop => throw stop

/-- Tests packages one after another; if one fails, says so and leaves. -/
def testEach (home : Home) (options : Members) (work : Work) (names : List String) (dir what : String) :
    Command Unit := do
  let rec each : Bool → List String → Command Bool
    | failed, [] => return failed
    | failed, name :: rest => do
      printError ("Testing " ++ name ++ "...")
      let one : Command Unit := do
        let w ← wish home options
          [str work.name, str "--pkgdir", str (join dir name)]
        perform home work w
      let failed := (← fails one) || failed
      if failed && isOn options "stopOnError" then return true
      each failed rest
  if ← each false names then
    printError ("Some " ++ what ++ " tests were unsuccessful.")
    leave (-1)

def filteredDirs (options : Members) (dir : String) : Command (List String) := do
  let files ← currentFiles
  let names ← demand .file (files.list? dir)
  let names := sortedStrings (names.filter fun n => files.isDir (join dir n))
  match option options "filter" with
  | .text t =>
    let part := (splitString ':' t.display).headD ""
    return names.filter (occursIn part)
  | _ => if names.isEmpty then return [] else flaw .kind

def testExamples (home : Home) (options : Members) : Command Unit := do
  let dir := join home.root "examples"
  testEach home options .test (← filteredDirs options dir) dir "examples"

def testAddons (home : Home) (options : Members) : Command Unit := do
  let dir := joinAll home.root ["test", "addons"]
  testEach home options .testRun (← filteredDirs options dir) dir "test addons"

def testPackages (home : Home) (options : Members) : Command Unit := do
  let files ← currentFiles
  let dir := join home.root "packages"
  let names := ((files.list? dir).getD []).filter fun n =>
    files.isDir (join dir n)
  let names := sortedStrings (names ++ [home.root])
  printError ("Testing all available packages: " ++ joinStrings ", " names ++ ".")
  testEach home options .test names dir "package"

def testAll (home : Home) (options : Members) : Command Unit := do
  let began := (← get).clock
  if !isOn options "filter" then printError "Testing cfx..."
  let groups := [("examples", testExamples), ("unit-test addons", testAddons), ("packages", testPackages)]
  let failed ← groups.foldlM (fun (failed : Bool) (what, test) => do
    if failed && isOn options "stopOnError" then return failed
    printError ("Testing all " ++ what ++ "...")
    return (← fails (test home options)) || failed) false
  printError ("Total time for all tests: " ++ ((← get).clock.sub began).fixed 6 ++ " seconds")
  if failed then
    printError "Some tests were unsuccessful."
    leave 1
  printError "All tests were successful. Ship it!"
  leave 0

def run (home : Home) (l : List Value) : Command Unit := do
  let w ← wish home [] l
  let command := w.words.headD .null
  match Work.named? command with
  | some work => perform home work w
  | none =>
    match command.plain.display with
    | "init" => let _ ← start w.words
    | "testpkgs" => testPackages home w.options
    | "testaddons" => testAddons home w.options
    | "testex" => testExamples home w.options
    | "testall" => testAll home w.options
    | "testcfx" =>
      if isOn w.options "filter" then
        printError "The filter option is not valid with the testcfx command"
    | _ =>
      printError ("Unknown command: " ++ command.plain)
      printError "Try using '--help' for assistance."
      leave 1

end AddonBuilder.Tool
