import AddonBuilder.CommandLine.Help

/-!
# The switches of the tool

The tool has one switch for all commands, and groups of switches for some commands only; the help
names the commands with each switch.
-/

namespace AddonBuilder.Tool

open Json Value
open CommandLine

def name : String := "cfx"

def usage : String := Text.joinStrings "\n" [ "cfx [options] command [command-specific options]",
  "",
  "Supported Commands:",
  "  init       - create a sample addon in an empty directory",
  "  test       - run tests",
  "  run        - run program",
  "  xpi        - generate an xpi",
  "",
  "Internal Commands:",
  "  testcfx    - test the cfx tool",
  "  testex     - test all example code",
  "  testpkgs   - test all installed packages",
  "  testall    - test whole environment",
  "",
  "Experimental and internal commands and options are not supported and may be",
  "changed or removed in the future."]

def helpFor (help : String) (commands : List String) : String :=
  help ++ " (" ++ Text.joinStrings ", " commands ++ ")"

def verboseSwitch : Switch where
  short := some 'v'
  long := "verbose"
  target := "verbose"
  help := "enable lots of output"
  effect := .set true
  initial := .bool false

def supportedGroup : Group where
  title := "Supported Command-Specific Options"
  switches := [
    { short := some 'b'
      long := "binary"
      target := "binary"
      help := helpFor "path to app binary" ["run", "test", "testall", "testex", "testpkgs"] },
    { long := "binary-args"
      target := "cmdargs"
      help := helpFor "additional arguments passed to the binary" ["run", "test"] },
    { long := "dependencies"
      target := "dep_tests"
      help := helpFor "include tests for all deps" ["test", "testall", "testex", "testpkgs"]
      effect := .set true
      initial := .bool false },
    { long := "extra-packages"
      target := "extra_packages"
      help := helpFor "extra packages to include, comma-separated. Default is 'addon-sdk'."
        ["run", "test", "testall", "testcfx", "testex", "testpkgs", "xpi"]
      initial := str "addon-sdk" },
    { short := some 'f'
      long := "filter"
      target := "filter"
      help := helpFor ("only run tests whose filenames match FILENAME and optionally match " ++
        "TESTNAME, both regexps")
        ["test", "testaddons", "testall", "testex", "testpkgs"]
      placeholder := some "FILENAME[:TESTNAME]"
      initial := str "" },
    { short := some 'g'
      long := "use-config"
      target := "config"
      help := helpFor "use named config from local.json"
        ["run", "test", "testall", "testex", "testpkgs", "xpi"]
      initial := str "default" },
    { short := some 'p'
      long := "profiledir"
      target := "profiledir"
      help := helpFor "profile directory to pass to app"
        ["run", "test", "testall", "testex", "testpkgs"] },
    { long := "package-path"
      target := "packagepath"
      help := helpFor "extra directories for package search" ["run", "test", "xpi"]
      effect := .append
      initial := .array [] },
    { long := "parseable"
      target := "parseable"
      help := helpFor "display test output in a parseable format"
        ["run", "test", "testaddons", "testall", "testex", "testpkgs"]
      effect := .set true
      initial := .bool false },
    { long := "pkgdir"
      target := "pkgdir"
      help := helpFor "package dir containing package.json; default is current directory"
        ["run", "test", "xpi"] },
    { long := "static-args"
      target := "static_args"
      help := helpFor "extra harness options as JSON" ["run", "xpi"]
      effect := .store .json
      initial := str "\x7b\x7d" },
    { long := "templatedir"
      target := "templatedir"
      help := helpFor "XULRunner app/ext. template" ["run", "xpi"] },
    { long := "times"
      target := "iterations"
      help := helpFor "number of times to run tests" ["test", "testall", "testex", "testpkgs"]
      effect := .store .integer
      initial := .int 1 },
    { long := "update-link"
      target := "update_link"
      help := helpFor "generate update.rdf" ["xpi"] },
    { long := "update-url"
      target := "update_url"
      help := helpFor "update URL in install.rdf" ["xpi"] }]

def experimentalGroup : Group where
  title := "Experimental Command-Specific Options"
  switches := [
    { short := some 'a'
      long := "app"
      target := "app"
      help := helpFor ("app to run: firefox (default), fennec, fennec-on-device, xulrunner or " ++
        "thunderbird")
        ["run", "test", "testall", "testex", "testpkgs"]
      effect := .store (.choice ["firefox", "fennec-on-device", "thunderbird", "xulrunner"])
      initial := str "firefox" },
    { long := "abort-on-missing-module"
      target := "abort_on_missing"
      help := helpFor "Abort if required module is missing" ["run", "test", "testpkgs", "xpi"]
      effect := .set true
      initial := .bool false },
    { long := "check-memory"
      target := "check_memory"
      help := helpFor "attempts to detect leaked compartments after a test run"
        ["test", "testaddons", "testall", "testpkgs"]
      effect := .set true
      initial := .bool false },
    { long := "force-mobile"
      target := "enable_mobile"
      help := helpFor "Force compatibility with Firefox Mobile" ["run", "test", "testall", "xpi"]
      effect := .set true
      initial := .bool false },
    { long := "force-use-bundled-sdk"
      target := "force_use_bundled_sdk"
      help := helpFor ("When --strip-sdk isn't passed, force using sdk modules shipped in the " ++
        "xpi instead of firefox ones")
        ["run", "test", "testall", "testex", "testpkgs", "xpi"]
      effect := .set true
      initial := .bool false },
    { long := "harness-option"
      target := "extra_harness_option_args"
      help := helpFor "Extra properties added to harness-options.json" ["xpi"]
      effect := .append
      placeholder := some "KEY=VALUE"
      initial := .array [] },
    { long := "manifest-overload"
      target := "manifest_overload"
      help := helpFor "JSON file to overload package.json properties" ["xpi"] },
    { long := "mobile-app"
      target := "mobile_app_name"
      help := helpFor ("Name of your Android application to use. Possible values: 'firefox', " ++
        "'firefox_beta', 'fennec_aurora', 'fennec' (for nightly).")
        ["run", "test", "testall"] },
    { long := "no-connections"
      target := "no_connections"
      help := helpFor "disable/enable remote connections (on for cfx run only by default)"
        ["run", "test", "testaddons", "testall", "testex", "testpkgs"]
      effect := .store (.choice ["on", "off", "default"])
      initial := str "default" },
    { long := "no-quit"
      target := "no_quit"
      help := helpFor "Prevent from killing Firefox whenrunning tests" ["run", "test"]
      effect := .set true
      initial := .bool false },
    { long := "no-run"
      target := "no_run"
      help := helpFor ("Instead of launching the application, just show the command for doing " ++
        "so.  Use this to launch the application in a debugger like gdb.")
        ["run", "test"]
      effect := .set true
      initial := .bool false },
    { long := "no-strip-xpi"
      target := "no_strip_xpi"
      help := helpFor "retain unused modules in XPI" ["xpi"]
      effect := .set true
      initial := .bool false },
    { short := some 'o'
      long := "overload-modules"
      target := "overload_modules"
      help := helpFor ("Overload JS modules integrated into Firefox with the one from your SDK " ++
        "repository")
        ["run", "test", "testall", "testex", "testpkgs"]
      effect := .set true
      initial := .bool false },
    { long := "output-file"
      target := "output_file"
      help := helpFor "Where to put the finished .xpi" ["xpi"] },
    { long := "stop-on-error"
      target := "stopOnError"
      help := helpFor "Stop running tests after the first failure" ["test", "testex", "testpkgs"]
      effect := .set true
      initial := .bool false },
    { long := "strip-sdk"
      target := "bundle_sdk"
      help := helpFor "Do not ship SDK modules in the xpi"
        ["run", "test", "testall", "testex", "testpkgs", "xpi"]
      effect := .set false
      initial := .bool false }]

def internalGroup : Group where
  title := "Internal Command-Specific Options"
  switches := [
    { long := "addons"
      target := "addons"
      help := helpFor "paths of addons to install, comma-separated"
        ["run", "test", "testall", "testex", "testpkgs"] },
    { long := "e10s"
      target := "enable_e10s"
      help := helpFor "enable remote windows"
        ["run", "test", "testaddons", "testall", "testcfx", "testex", "testpkgs"]
      effect := .set true
      initial := .bool false },
    { long := "keydir"
      target := "keydir"
      help := helpFor "obsolete, ignored" ["run", "test", "testall", "testex", "testpkgs", "xpi"] },
    { long := "logfile"
      target := "logfile"
      help := helpFor "log console output to file" ["run", "test", "testex", "testpkgs"] },
    { long := "profile-memory"
      target := "profileMemory"
      help := helpFor "profile memory usage (default is false)"
        ["test", "testall", "testex", "testpkgs"]
      effect := .store .integer
      initial := .int 0 },
    { long := "test-runner-pkg"
      target := "test_runner_pkg"
      help := helpFor "name of package containing test runner program (default is test-harness)"
        ["test", "testall", "testex", "testpkgs"]
      initial := str "addon-sdk" }]

def program (version : Text) : Program where
  name := name
  usage := usage
  version := version
  switches := [verboseSwitch]
  groups := [supportedGroup, experimentalGroup, internalGroup]

/-- The arguments of the tool.  With no word at all, the help is shown. -/
def args (version : Text) (given : Members) (l : List Value) : Command (Members × List Value) := do
  let p := program version
  let a ← Session.ofExcept Complaint.fault (p.read given l)
  let isShared (s : Switch) : Bool := s.effect = .append
  let lists := (p.allSwitches.filter isShared).filterMap fun s =>
    match Assoc.get? a.values s.target with
    | some (.array l) => some (s.target, l)
    | _ => none
  modify fun s => { s with collected := lists }
  let (values, words) ← p.heed a
  if words.isEmpty then
    Session.write p.helpText
    Session.leave 0
  return (values, words)

end AddonBuilder.Tool
