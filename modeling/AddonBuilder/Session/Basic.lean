import AddonBuilder.Archive.Extension
import AddonBuilder.Install.Description
import AddonBuilder.Linker.Module
import AddonBuilder.Number.Arithmetic
import AddonBuilder.Text.Strings

/-!
# Sessions

A command works in a **session**: a file tree, what it has printed, the programs that it can start,
and a clock.
-/

namespace AddonBuilder

open Json

/-- What comes of starting a program. -/
inductive Outcome where
  | missing
  /-- The program prints something and ends with a code. -/
  | finished (output : String) (code : Int)
deriving DecidableEq, Repr

/-- What happens while a command sleeps. -/
structure Event where
  advance : Option Binary64 := none
  log : Option Bytes := none
  /-- What is added to the output of the application. -/
  out : Option Bytes := none
  result : Option Bytes := none
deriving Repr

/-- The files that a running application writes. -/
structure Watched where
  log : Option String := none
  out : Option String := none
  result : Option String := none
deriving Repr

/-- The world of a run: what it reads, and what it leaves. -/
structure Session where
  files : Files := {}
  /-- How strings are held that come from the system. -/
  strings : Strings := .bytes
  printed : Text := []
  printedErrors : Text := []
  /-- What comes of commands that contain a text; the first that fits counts. -/
  programs : List (String × Outcome) := []
  started : List String := []
  clock : Binary64 := Binary64.zero false
  events : List Event := []
  /-- How many temporary names were taken. -/
  namesTaken : Nat := 0
  /-- Where temporary files are made. -/
  temporary : String := "/tmp"
  random : Bytes := []
  /-- The home directories of users by name, that of the user who runs the command without one. -/
  homes : Assoc String String := []
  searchPath : List String := []
  platform : String
  /-- The files that are removed when the command is over. -/
  leftovers : List String := []
  watched : Watched := {}
  /-- The add-ons that were unpacked into each profile. -/
  unpacked : Assoc String (List String) := []
  /-- The lists that options have added to so far. -/
  collected : Assoc String (List Value) := []

/-- What a program leaves with. -/
inductive ExitCode where
  | none
  | number (n : Int)
  | text (t : Text)
deriving DecidableEq, Repr

/-- What is wrong with a file of sections. -/
inductive EntryFault where
  | noSection
  | repeatedSection
  | repeatedEntry
  | noEntry
deriving DecidableEq, Repr

/-- Why a command fails. -/
inductive Fault where
  | defect (d : Defect)
  | pkg (f : Package.Fault)
  | linker (stop : Linker.Stop)
  | extension (f : Extension.Fault)
  | install (f : Install.Fault)
  /-- A started program ended with a code that tells of failure. -/
  | program (command : List String) (code : Int) (output : String)
  /-- A value that was given is not suitable. -/
  | unsuitable (message : Text)
  /-- An option has a bad value; the message may be missing. -/
  | badOption (message : Option Text)
  | general (message : Text)
  | notAnArchive
  | notANumber (word : String)
  /-- The command waits and nothing happens any more. -/
  | stalled
  | entries (f : EntryFault)
deriving Repr

def Fault.message? : Fault → Option Text
  | defect _ => none
  | pkg f => f.message?
  | linker stop => stop.message?
  | extension f => f.message?
  | install f => f.message?
  | program command code _ =>
    some ("Command '" ++ (Datum.list (command.map fun c => .text (Text.ofString c))).shown ++
      "' returned non-zero exit status " ++ Text.ofInt code)
  | unsuitable message => some message
  | badOption message => message
  | general message => some message
  | notAnArchive | notANumber _ | stalled | entries _ => none

/-- What the user is told if a value that was given is to blame for a fault. -/
def Fault.blame? : Fault → Option Text
  | unsuitable message => some message
  | notANumber word =>
    some ("invalid literal for int() with base 10: " ++ Text.quoted (Text.ofString word))
  | _ => none

/-- A command ends early: it leaves, or it fails. -/
inductive Stop where
  | left (code : ExitCode)
  | failed (f : Fault)
deriving Repr

/-- Work in a session that may end early. -/
abbrev Command := ExceptT Stop (StateM Session)

namespace Session

def fail {α : Type} (f : Fault) : Command α := throw (.failed f)

/-- Fails with a defect. -/
def flaw {α : Type} (d : Defect) : Command α := fail (.defect d)

/-- Ends the program with a code. -/
def leave {α : Type} (code : Int) : Command α := throw (.left (.number code))

def ofExcept {ε α : Type} (wrap : ε → Fault) (e : Except ε α) : Command α :=
  match e with
  | .ok a => pure a
  | .error e => fail (wrap e)

/-- Runs a part of a command; if it ends early, the command goes on all the same. -/
def attempt {α : Type} (c : Command α) : Command (Except Stop α) :=
  ExceptT.mk do return .ok (← c.run)

/-- A computation on packages.  One that ends with an explanation prints it and leaves. -/
def ofPackage {α : Type} (e : Except Package.Fault α) : Command α :=
  match e with
  | .ok a => pure a
  | .error (.stopped explanation) => do
    modify fun s => { s with printed := s.printed ++ explanation }
    leave 1
  | .error f => fail (.pkg f)

/-- Fails with a defect where there is nothing. -/
def demand {α : Type} (d : Defect) (o : Option α) : Command α :=
  match o with
  | some a => pure a
  | none => flaw d

def write (t : Text) : Command Unit := modify fun s => { s with printed := s.printed ++ t }

def print (t : Text) : Command Unit := write (t ++ "\n")

def writeError (t : Text) : Command Unit :=
  modify fun s => { s with printedErrors := s.printedErrors ++ t }

/-- Writes a line beside the output. -/
def printError (t : Text) : Command Unit := writeError (t ++ "\n")

/-- The files as they are now. -/
def currentFiles : Command Files := return (← get).files

def setFiles (f : Files) : Command Unit := modify fun s => { s with files := f }

def change (f : Files → Option Files) : Command Unit := do
  setFiles (← demand .file (f (← currentFiles)))

/-- The content of a file that has to be there. -/
def readBytes (path : String) : Command Bytes := do
  demand .file ((← currentFiles).read? path)

def readText (path : String) : Command String := do
  demand .encoding (Codec.stringOfUtf8? (← readBytes path))

/-- Writes a file, or fails. -/
def writeBytes (path : String) (content : Bytes) : Command Unit :=
  change fun f => f.write? path (.file content)

/-- The content of a file as a string. -/
def readString (path : String) : Command String := do
  let content ← readBytes path
  demand .encoding ((← get).strings.read? content)

/-- The text of a program. -/
def readSource (path : String) : Command String := do
  let content ← readBytes path
  demand .encoding ((← get).strings.source? content)

/-- Writes a file from a text, which must have no surrogate. -/
def writeText (path : String) (t : Text) : Command Unit := do
  change fun f => f.write? path (.file [])
  writeBytes path (← demand .unencodable (Codec.encodeUtf8? t))

def readNode (path : String) : Command Node := do demand .file ((← currentFiles).node? path)

def copyFile (source target : String) : Command Unit := do
  match ← readNode source with
  | .dir => flaw .file
  | node => change fun f => f.write? target node

def makeDirs (path : String) : Command Unit := do
  let f ← currentFiles
  let l := (Path.names (f.absolute path)).filter (· ≠ "")
  if (List.range (l.length + 1)).any fun n =>
      match f.tree.get? (l.take n) with
      | none | some .dir => false
      | some _ => true then
    flaw .file
  setFiles { f with tree := f.tree.makeDirs l }

def copyDir (source target : String) : Command Unit := do
  let f ← currentFiles
  if !f.isDir source || f.contains target then flaw .file
  makeDirs target
  let f ← currentFiles
  match f.tree.locate? f.here source, f.tree.locate? f.here target with
  | some a, some b => setFiles { f with tree := f.tree.copyAll a b }
  | _, _ => flaw .file

/-- Adds to a file, which is made if it is missing. -/
def append (path : String) (content : Bytes) : Command Unit := do
  let old := ((← currentFiles).read? path).getD []
  writeBytes path (old ++ content)

def temporaryName (start ending : String) : Command String := do
  let s ← get
  let n := s.namesTaken + 1
  let l := (Path.names s.temporary).filter (· ≠ "")
  set { s with namesTaken := n, files := { s.files with tree := s.files.tree.makeDirs l } }
  return Path.join s.temporary (start ++ toString n ++ ending)

def temporaryFile (start : String) : Command String := do
  let path ← temporaryName start ""
  writeBytes path []
  return path

def temporaryDir (ending : String) : Command String := do
  let path ← temporaryName "tmp" ending
  change fun f => f.makeDir? path
  return path

def note (s : String) : Command Unit := modify fun x => { x with started := x.started ++ [s] }

/-- Starts a program; `none` means that there is no such program. -/
def start? (command : List String) : Command (Option (String × Int)) := do
  let line := Text.joinStrings " " command
  note line
  match (← get).programs.find? fun (pattern, _) => Text.occursIn pattern line with
  | some (_, .missing) => return none
  | some (_, .finished output code) => return some (output, code)
  | none => return some ("", 0)

def start (command : List String) : Command (String × Int) := do
  demand .file (← start? command)

def outputOf (command : List String) : Command String := do
  let (output, code) ← start command
  if code = 0 then return output else fail (.program command code output)

/-- What a program prints, if it succeeds and its output was not sent elsewhere. -/
def captured (command : List String) (redirected : Bool) : Command String :=
  if redirected then
    fail (.unsuitable "stdout argument not allowed, it will be overridden.")
  else outputOf command

/-- Writes to a file, if there is one and something to write. -/
def writeAt (write : String → Bytes → Command Unit) (path : Option String)
    (content : Option Bytes) : Command Unit :=
  match path, content with
  | some path, some content => write path content
  | _, _ => pure ()

def happen (e : Event) : Command Unit := do
  if let some seconds := e.advance then
    modify fun s => { s with clock := s.clock.add seconds }
  let w := (← get).watched
  writeAt append w.log e.log
  writeAt append w.out e.out
  writeAt writeBytes w.result e.result

def sleep (seconds : Binary64) : Command Unit := do
  modify fun s => { s with clock := s.clock.add seconds }
  match (← get).events with
  | [] => fail .stalled
  | e :: rest =>
    modify fun s => { s with events := rest }
    happen e

def removeLater (path : String) : Command Unit :=
  modify fun s => { s with leftovers := s.leftovers ++ [path] }

/-- The session after a command is over: what was to be removed is gone. -/
def close (s : Session) : Session :=
  { s with
    files := s.leftovers.foldl (fun f path => (f.removeFile? path).getD f) s.files
    leftovers := [] }

def run {α : Type} (c : Command α) (s : Session) : Except Stop α × Session :=
  let (r, s) := (ExceptT.run c).run s
  (r, s.close)

end Session

end AddonBuilder
