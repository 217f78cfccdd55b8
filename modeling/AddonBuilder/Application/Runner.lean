import AddonBuilder.Application.Product
import AddonBuilder.Application.Profile

/-!
# Starting applications

The program of an application is given, or it is found on the search path or among the installed
bundles.
-/

namespace AddonBuilder.Application

open Session Text

def findProgram? (files : Files) (platform : String) (dirs : List String) (name : String) :
    Option String :=
  dirs.findSome? fun d =>
    let candidates := if platform = "cygwin" then [name, name ++ ".exe"] else [name]
    (candidates.map (Path.join d)).find? files.isFile

/-- The complaint about an application that cannot be found. -/
def noProgram : String := "Mozrunner could not locate your binary, you will need to set it."

/-- The program of an application among the installed bundles. -/
def findInBundles? (files : Files) (p : Product) (names : List String) : Option String :=
  p.bundles.findSome? fun bundle => do
    let homes := ["~/Applications/" ++ bundle ++ ".app", "/Applications/" ++ bundle ++ ".app"]
    let home ← homes.find? files.isDir
    (names.map fun n => Path.join home ("Contents/MacOS/" ++ n ++ "-bin")).find? files.isFile

/-- The program on the search path.  All names are looked for, the preferred one last, and what the
last search finds counts. -/
def findOnPath? (files : Files) (platform : String) (dirs names : List String) : Option String :=
  names.reverse.foldl (fun _ name => findProgram? files platform dirs name) none

/-- The program of an application where it is usually installed. -/
def findBinary (p : Product) : Command String := do
  let s ← get
  let names := (p.names? s.platform).getD []
  if s.platform = "cygwin" then flaw .key
  let found := if Product.isUnix s.platform then
      findOnPath? s.files s.platform s.searchPath names
    else if s.platform = "darwin" then findInBundles? s.files p names
    else none
  match found with
  | some path => return path
  | none => fail (.general noProgram)

/-- How an application is started, and the names of its processes. -/
structure Runner where
  binary : String
  names : Option (List String)
  /-- The command without the arguments. -/
  command : List String
  /-- The arguments, where there can be any. -/
  args : Option (List String)

def existing (binary : String) : Command String := do
  if (← currentFiles).contains binary then return binary
  fail (.general ("Binary path does not exist " ++ binary))

def programFor (p : Product) (binary : Option String) : Command String := do
  let s ← get
  match binary with
  | none => existing (← findBinary p)
  | some b =>
    if s.platform = "darwin" && !occursIn "Contents/MacOS/" b then
      match (p.names? s.platform).bind List.head? with
      | some name => existing (Path.join b ("Contents/MacOS/" ++ name ++ "-bin"))
      | none => flaw .kind
    else existing b

/-- A browser or mail program, ready to be started. -/
def desktopRunner (p : Product) (binary : Option String) (profile : String)
    (args : List String) : Command Runner := do
  let binary ← programFor p binary
  return {
    binary
    names := p.names? (← get).platform
    command := [binary, "-profile", profile]
    args := some args }

/-- A program for applications of one's own, ready to be started.  Among the arguments there must be the
description of the application. -/
def ownApplicationRunner (binary : Option String) (profile : String) (args : List String) :
    Command Runner := do
  let platform := (← get).platform
  let given := (binary.filter (· ≠ "")).map fun b =>
    if platform = "darwin" && endsWith b ".app" then Path.join b "Contents/MacOS/firefox-bin"
    else b
  let (binary, names) ← match given with
    | some b => pure (b, Product.names? platform .xulrunner)
    | none => do pure (← existing (← findBinary .firefox), Product.names? platform .firefox)
  let binary ← existing binary
  let isDescription := occursIn "application.ini"
  match (args.filter isDescription).getLast? with
  | none => fail (.unsuitable "application.ini not found in cmdargs")
  | some description =>
    if !(← currentFiles).contains description then
      fail (.unsuitable ("file does not exist: '" ++ description ++ "'"))
    let start := if occursIn "xulrunner" binary then [binary, description]
      else [binary, "-app", description]
    return {
      binary
      names
      command := start ++ ["-profile", profile]
      args := some (args.filter (!isDescription ·)) }

/-! ## Processes -/

/-- The processes whose line holds a name, above a number. -/
def processesAbove (name : String) (least : Int) : Command (List Int) := do
  let path ← temporaryName "tmp" ""
  writeBytes path []
  let (output, _) ← start ["ps", "ax"]
  change fun f => f.removeFile? path
  let ids ← ((linesOf output).filter (occursIn name)).mapM fun line =>
    match wordsOf line with
    | [] => flaw .index
    | word :: _ =>
      match integerOfString? word with
      | some n => pure n
      | none => fail (.notANumber word)
  return ids.filter (· > least)

/-- The number of every process that was started itself. -/
def firstProcess : Int := 1000

/-- Does something to a process and to the later processes of the application; gives the last of
them.  Where later processes cannot be listed, only the first one counts. -/
def Runner.forProcesses (r : Runner) (what : String) (process : Int) : Command Int := do
  note what
  if (← get).platform = "win32" then return process
  match r.names with
  | none => flaw .kind
  | some names => names.foldlM (fun process name => do
      let later ← processesAbove name process
      later.foldlM (fun _ id => do note what; return id) process) process

/-- Starts the application. -/
def Runner.launch (r : Runner) : Command Unit := do
  let _ ← start (r.command ++ r.args.getD [])

def Runner.wait (r : Runner) (process : Int) : Command Int := r.forProcesses "(wait)" process

def Runner.kill (r : Runner) (process : Int) : Command Int := r.forProcesses "(kill)" process

end AddonBuilder.Application
