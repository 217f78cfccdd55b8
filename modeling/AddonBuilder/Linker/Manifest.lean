import AddonBuilder.Digest
import AddonBuilder.Files.Ignored
import AddonBuilder.Json.Encoding
import AddonBuilder.Linker.Resolve
import AddonBuilder.Text.Pattern

/-!
# Linking a package

Linking starts from the main module of the target, from its tests if they are to be run, and from
the modules that load the others, and follows what each module asks for.
-/

namespace AddonBuilder.Linker

open Json Text Assoc Value
open Package (Packages Config)

/-- What stands for a name that a module asks for. -/
inductive Requirement where
  | place (p : Place)
  /-- The name itself: it is not part of the program, or it is missing. -/
  | name (n : String)
deriving DecidableEq, Repr

/-- A file and the digest of its content. -/
structure HashedFile where
  file : String
  digest : String
deriving DecidableEq, Repr

/-- What the manifest says of one module. -/
structure Entry where
  source : Option HashedFile := none
  documentation : Option HashedFile := none
  requirements : Assoc String Requirement := []
deriving Repr, Inhabited

/-- The data files of a package. -/
structure DataFiles where
  pkg : Text
  /-- The name of each file in an archive, and its path. -/
  files : List (String × String)
  digests : Text
deriving Repr

namespace DataFiles

def digest (d : DataFiles) : String := Digest.hex (Codec.utf8OfString d.digests.display)

def tableName (d : DataFiles) : String := d.pkg.display ++ "-data.json"

def addressStart (d : DataFiles) : String := d.pkg.display ++ "/data/"

end DataFiles

/-- What has been linked so far. -/
structure Manifest where
  entries : Assoc Place Entry := []
  /-- The modules that have been followed. -/
  followed : List Module := []
  data : Assoc Text DataFiles := []
  /-- The path of the main module. -/
  top : Option String := none
  tests : List String := []
  /-- What the user should know. -/
  notes : String := ""
deriving Inhabited

/-- A step of linking: it may fail, and what was noted until then stays. -/
abbrev Linking := ExceptT Stop (StateM Manifest)

def note (s : String) : Linking Unit := modify fun m => { m with notes := m.notes ++ s }

/-- A computation that needs no manifest as a step of linking. -/
def perform {α : Type} (e : Except Fault α) : Linking α :=
  match e with
  | .ok a => pure a
  | .error f => throw (.fault f)

/-- A search as a step of linking, with the files it looked for. -/
def runSearch {α : Type} (search : Search α) : Linking (α × List String) := do
  let (result, trail) := search.run.run {}
  note trail.notes
  return (← perform result, trail.lookedIn)

/-- Makes sure that a place has an entry. -/
def claim (p : Place) : Linking Unit :=
  modify fun m =>
    if contains m.entries p then m else { m with entries := insert m.entries p {} }

def updateEntry (p : Place) (f : Entry → Entry) : Linking Unit :=
  modify fun m =>
    { m with entries := insert m.entries p (f ((get? m.entries p).getD {})) }

/-- Sets what a name stands for in the entry of a place. -/
def require_ (p : Place) (name : String) (r : Requirement) : Linking Unit :=
  updateEntry p fun e => { e with requirements := insert e.requirements name r }

def contentOf (files : Files) (path : String) : Except Fault Bytes :=
  match files.read? path with
  | some bytes => .ok bytes
  | none => .error (defect .file)

def hashFile (files : Files) (path : String) : Except Fault HashedFile := do
  return ⟨path, Digest.hex (← contentOf files path)⟩

/-- The lines of a file, each with its line feed. -/
def linesOf (s : Setting) (path : String) : Except Fault (List (List Char)) := do
  match s.strings.source? (← contentOf s.files path) with
  | some source => return cutAfterLineFeed source.toList
  | none => throw (defect .encoding)

/-- Names that are not looked for: the browser itself, and what the loader provides. -/
def isProvided (name : String) : Bool := name = "chrome" || beginsWith name "@"

/-- What is done about a name that no module has. -/
def handleMissing (s : Setting) (m : Module) (name : String) (line : Option Nat)
    (lookedIn : List String) : Linking Unit := do
  if m.sec = "tests" || endsWith name ".jsm" then return ()
  if !s.abortOnMissing then
    note ("Warning: missing module: " ++ name ++ "\n")
    require_ m.toPlace name (.name name)
  else
    throw (.fault <| .notFound {
      way := if line.isSome then "require" else "define"
      name, usedBy := m.file, line := line.map Int.ofNat, lookedIn })

def enterFiles (s : Setting) (m : Module) : Linking Unit := do
  claim m.toPlace
  let source ← perform (hashFile s.files m.file)
  updateEntry m.toPlace fun e => { e with source := some source }
  match m.documentation with
  | none => return ()
  | some page =>
    let hashed ← perform (hashFile s.files page)
    updateEntry m.toPlace fun e => { e with documentation := some hashed }

/-- What a module's file asks for; it must not use `Components` without asking for it. -/
def readRequirements (s : Setting) (m : Module) : Linking Requirements := do
  let lines ← perform (linesOf s m.file)
  match chromeProblem? m.file lines with
  | some advice =>
    note advice
    throw (.fault .chrome)
  | none => return requirements lines

/-- Enters a module, and gives what it asks for. -/
def openModule (s : Setting) (m : Module) : Linking Requirements :=
  if isRelative m.name then throw (.fault (defect .assumption))
  else do
    enterFiles s m
    readRequirements s m

/-- Follows a module unless that has been done. -/
def reach (follow : Module → Linking Unit) (m : Module) : Linking Unit := do
  if !(← get).followed.contains m then
    claim m.toPlace
    modify fun x => { x with followed := x.followed ++ [m] }
    follow m

/-- Settles what a name stands for that a module asks for, and reaches the module that is meant. -/
def settle (s : Setting) (reach : Module → Linking Unit) (m : Module) (required : Requirements)
    (name : String) : Linking Unit := do
  if isProvided name then require_ m.toPlace name (.name name)
  else
    let line := ((get? required name).getD none)
    let (found, lookedIn) ← runSearch (resolve s m name line)
    match found with
    | none => handleMissing s m name line lookedIn
    | some other =>
      reach other
      require_ m.toPlace name (.place other.toPlace)

/-- Enters a module, and reaches what it asks for. -/
def linkModule (s : Setting) (reach : Module → Linking Unit) (m : Module) : Linking Unit := do
  let required ← openModule s m
  (sortedStrings (keys required)).forM (settle s reach m required)

/-- Links a module and what it asks for, down to a depth. -/
def follow (s : Setting) : Nat → Module → Linking Unit
  | 0, _ => throw .endless
  | depth + 1, m => linkModule s (reach (follow s depth)) m

/-- A computation on packages as part of linking. -/
def fromPackage {α : Type} (e : Except Package.Fault α) : Except Fault α := e.mapError .pkg

def dataFiles (s : Setting) (cfg : Config) : Except Fault DataFiles := do
  let pkg ← fromPackage (Package.name cfg)
  let dir := Path.join (← fromPackage (Package.rootDir cfg)) "data"
  let visits := s.files.walk Files.keepsDir dir
  let paths := visits.flatMap fun v =>
    (v.files.filter (Files.keepsFile Files.ignoredFiles)).map (Path.join v.path)
  let names := paths.map fun p => String.ofList (p.toList.drop (dir.length + 1))
  let digests ← paths.mapM (hashFile s.files)
  let table := object (ofList ((names.zip digests).map fun (n, d) => (ofString n, str d.digest)))
  return {
    pkg
    files := names.zip paths |>.map fun (n, p) => (pkg.display ++ "-data/" ++ n, p)
    digests := ((table.encode { indent := some 1 }).toOption.getD []) ++ "\n" }

/-- The main module that a configuration names. -/
def topModule (s : Setting) (main : Value) : Except Fault Module := do
  let root ← fromPackage (Package.rootDir s.target)
  let libraries ← fromPackage do Package.asElements (← Package.field s.target "lib")
  let main ← if libraries.isEmpty then pure main.plain else fromPackage (Package.asText main)
  let libraries ← fromPackage (libraries.mapM Package.asText)
  let candidates := libraries.flatMap fun l => mainFiles root main.display (some l.display)
  match candidates.find? s.files.contains with
  | none => throw (.noMain main)
  | some file =>
    let page := Path.join root "README.md"
    let name ← nameInLibrary s.files s.target file
    let pkg ← fromPackage (Package.name s.target)
    return {
      pkg := pkg.display, sec := "lib", name, file
      documentation := if s.files.contains page then some page else none }

def linkMain (s : Setting) (follow : Module → Linking Unit) : Linking Unit := do
  match get? s.target "main" with
  | none => return ()
  | some main =>
    let m ← perform (topModule s main)
    follow m
    modify fun x => { x with top := some m.path }
    let name ← perform (fromPackage (Package.name s.target))
    let data ← perform (dataFiles s s.target)
    modify fun x => { x with data := insert x.data name data }

/-- Whether a name passes a filter; an empty one lets all pass. -/
def passes (filter : String) (name : String) : Except Fault Bool :=
  if filter.isEmpty then .ok true
  else match Pattern.parse? filter with
    | some p => .ok (p.occursIn name)
    | none => .error .badFilter

def testsIn (s : Setting) (filter : String) (pkg : String) (dir : String) :
    Except Fault (List Module) := do
  match s.files.list? dir with
  | none => throw (defect .file)
  | some names =>
    let files := names.filter (beginsWith · "test-")
    files.filterMapM fun file => do
      match beforeEnd? file ".js" with
      | none => return none
      | some name =>
        if !(← passes filter name) then return none
        return some { pkg, sec := "tests", name, file := Path.join dir file,
                      documentation := none }

def testDirs (s : Setting) : Except Fault (List String) := do
  let dirs ← match get? s.target "tests" with
    | none => throw (defect .key)
    | some (.text t) => pure [text t]
    | some v => fromPackage (Package.asElements v)
  fromPackage (dirs.mapM (Package.resolve s.target))

def findRunner (s : Setting) : Search Module := do
  match ← inPackage s ["lib"] "sdk/test/runner" Package.libraryName with
  | none => throw (defect .kind)
  | some m => return m

/-- The module that finds tests when they are run. -/
def testFinder : Place := ⟨Package.libraryName, "lib", "sdk/deprecated/unit-test-finder"⟩

/-- Links the tests of the target, and what runs them.  Every test counts as asked for by the
module that finds tests. -/
def linkTests (s : Setting) (filter : String) (follow : Module → Linking Unit) : Linking Unit := do
  let (runner, _) ← runSearch (findRunner s)
  follow runner
  let dirs ← perform (testDirs s)
  let pkg ← perform (fromPackage (Package.name s.target))
  let tests ← dirs.mapM fun dir => do
    let tests ← perform (testsIn s filter pkg.display dir)
    tests.forM follow
    return tests
  claim testFinder
  tests.flatten.forM fun m => do
    require_ testFinder m.name (.place m.toPlace)
    modify fun x => { x with tests := x.tests ++ [m.path] }

/-- A module that is linked whether or not others ask for it. -/
structure ExtraModule where
  pkg : Text
  sec : String
  name : String
  file : String

/-- A module that is followed besides the main one. -/
def extraModule (s : Setting) (x : ExtraModule) : Except Fault Module :=
  match get? s.pkgs x.pkg with
  | none => .error (defect .key)
  | some cfg => do
    let pkg ← fromPackage (Package.name cfg)
    return { pkg := pkg.display, sec := x.sec, name := x.name, file := x.file,
             documentation := none }

def linkExtra (s : Setting) (follow : Module → Linking Unit) (x : ExtraModule) : Linking Unit := do
  follow (← perform (extraModule s x))

/-- Which modules are linked beside the main one. -/
structure Scope where
  tests : Bool := false
  /-- The pattern that the names of tests must have; an empty one lets all pass. -/
  filter : String := ""
  extra : List ExtraModule := []

/-- Links the modules from which all others are reached. -/
def linkAll (s : Setting) (scope : Scope) (follow : Module → Linking Unit) : Linking Unit := do
  linkMain s follow
  if scope.tests then linkTests s scope.filter follow
  scope.extra.forM (linkExtra s follow)

/-- Links a package.  The manifest shows how far linking came, also if it failed. -/
def link (s : Setting) (scope : Scope) (depth : Nat := 244) : Except Stop Unit × Manifest :=
  (linkAll s scope (follow s depth)).run.run {}

namespace Manifest

/-- The packages of the linked modules, in alphabetical order. -/
def pkgs (m : Manifest) : List String :=
  sortedStrings ((m.entries.map fun (p, _) => p.pkg).eraseDups)

/-- Whether a place counts, if the library's modules may be left out. -/
def counts (withLibrary : Bool) (p : Place) : Bool :=
  withLibrary || p.pkg != Package.libraryName

/-- The files that the linked modules come from, and the data files.  An entry that was made for its
place only has no file, which is a defect. -/
def usedFiles (m : Manifest) (withLibrary : Bool) : Except Defect (List String) := do
  let data := m.data.flatMap fun (_, d) => d.files.map Prod.snd
  let sources ← (m.entries.filter fun x => counts withLibrary x.1).mapM fun (_, e) =>
    match e.source with
    | some h => Except.ok h.file
    | none => .error Defect.kind
  return data ++ sources

/-- The path or name that a requirement is written as. -/
def requirementText : Requirement → String
  | .place p => p.path
  | .name n => n

def entryValue (p : Place) (e : Entry) : Except Defect Value :=
  match e.source with
  | none => .error .kind
  | some source => .ok <| .object [ (ofString "packageName", str p.pkg),
      (ofString "sectionName", str p.sec),
      (ofString "moduleName", str p.name),
      (ofString "jsSHA256", str source.digest),
      (ofString "docsSHA256", match e.documentation with
        | some h => str h.digest
        | none => .null),
      (ofString "requirements", .object (e.requirements.map fun (n, r) =>
        (ofString n, str (requirementText r))))]

def row (x : Place × Entry) : Except Defect (Text × Value) := do
  return (ofString x.1.path, ← entryValue x.1 x.2)

/-- The manifest as it is shipped: entries by path, of which a later one replaces an earlier one. -/
def members (m : Manifest) (withLibrary : Bool) : Except Defect Members := do
  return ofList (← (m.entries.filter fun x => counts withLibrary x.1).mapM row)

end Manifest

end AddonBuilder.Linker
