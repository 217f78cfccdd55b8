import AddonBuilder.Package.Template
import AddonBuilder.Session.Basic

/-!
# Starting a package

A new package is made in an empty directory, or in a new one below it.
-/

namespace AddonBuilder.Package

open Json
open Session

def drawIdentifier : Command String := return newIdentifier (← get).random

/-- The place that the arguments name, if they name one. -/
def namedPlace : List Value → Command (Option Text)
  | [_, .text t] => pure (some t)
  | [_, _] => flaw .kind
  | _ => pure none

/-- The path of a place: the directory itself, or one below it. -/
def placePath (here : String) : Option Text → String
  | some t => Path.join here t.display
  | none => here

/-- Makes the directory of a place that is named, unless something is there. -/
def makePlace (path : String) : Option Text → Command Unit
  | none => pure ()
  | some t => do
    match (← currentFiles).makeDir? path with
    | some f =>
      setFiles f
      print ("* " ++ t ++ " package directory created")
    | none => print ("* " ++ t ++ " already exists, testing if directory is empty")

/-- Makes the directories and files of a new package in an empty directory, and gives its
identifier. -/
def furnish (path title : String) : Command String := do
  ["lib", "data", "test"].forM fun d => do
    change fun f => f.makeDir? (Path.join path d)
    print ("* " ++ d ++ " directory created")
  let id ← drawIdentifier
  print ("* generated jID automatically: " ++ id)
  writeText (Path.join path "package.json") (newManifest ((← get).strings.lower title) title id)
  print "* package.json written"
  writeText (Path.joinAll path ["test", "test-main.js"]) newTest
  print "* test/test-main.js written"
  writeText (Path.joinAll path ["lib", "main.js"]) []
  print "* lib/main.js written"
  return id

def tellReady : Option Text → Command Unit
  | none => do
    print "\nYour sample add-on is now ready."
    print "Do \"cfx test\" to test it and \"cfx run\" to try it.  Have fun!"
  | some t => do
    print ("\nYour sample add-on is now ready in the '" ++ t ++ "' directory.")
    print "Change to that directory, then do \"cfx test\" to test it, \nand \"cfx run\" to try it.  Have fun!"

/-- Starts a package, and gives its identifier if it could be made. -/
def start (args : List Value) : Command (Option String) := do
  let here := (← currentFiles).herePath
  if args.length > 2 then
    printError "Too many arguments."
    return none
  let place ← namedPlace args
  let path := placePath here place
  makePlace path place
  let entries ← demand .file ((← currentFiles).list? path)
  if entries.any fun e => !Text.beginsWith e "." then
    printError "This command must be run in an empty directory."
    return none
  let id ← furnish path (Path.base here)
  if args.isEmpty then flaw .index
  tellReady place
  return some id

def copyNames : Nat := 1001

def freeName? (files : Files) (first : String) : Option String :=
  (first :: (List.range copyNames).map fun i => first ++ "-" ++ toString i).find? fun name =>
    !files.contains name

/-- Whether a key is in a value: a key of an object, an item of an array, or a part of a text. -/
def hasKey (key : Text) : Value → Except Defect Bool
  | .object members => .ok (Assoc.contains members key)
  | .array items => .ok (items.any fun v => v == .text key)
  | .text t => .ok (Text.occurs key t)
  | _ => .error .kind

/-- Sets the description of a package aside under another name, and writes it anew with an
identifier. -/
def renew (path name : String) (members : Members) (id : String) : Command Unit := do
  let content ← readBytes path
  change fun f => f.removeFile? path
  writeBytes name content
  match (Value.object (Assoc.insert members "id" (Value.str id))).encode { indent := some 4 } with
  | .error _ => flaw .kind
  | .ok t => writeText path (t ++ "\n")

/-- Gives an identifier to the package with a description, if it has none; tells whether the
description had to be changed. -/
def identifyAs (path : String) (cfg : Value) : Command Bool := do
  if ← ofExcept .defect (hasKey "id" cfg) then return false
  printError "No 'id' in package.json: creating a new ID for you."
  let id ← drawIdentifier
  let .object members := cfg | flaw .kind
  let copy := path ++ ".backup"
  let some name := freeName? (← currentFiles) copy
    | fail (.unsuitable ("I'm having problems finding a good name for the backup file. Please move " ++
        copy ++ " out of the way and try again."))
  renew path name members id
  return true

/-- Gives the package described in a file an identifier, if it has none; tells whether the file had to
be changed. -/
def identify (path : String) : Command Bool := do
  let content ← readBytes path
  match decodeUtf8 content with
  | .ok cfg => identifyAs path cfg
  | .error e =>
    match e.message? (bytesSource content) with
    | some m => fail (.unsuitable m)
    | none => flaw .value

end AddonBuilder.Package
