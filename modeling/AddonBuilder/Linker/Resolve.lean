import AddonBuilder.Linker.Module
import AddonBuilder.Linker.Relocated
import AddonBuilder.Package.Discovery
import AddonBuilder.Text.Strings

/-!
# Finding the module that a name means

A name that starts with `./` or `../` is relative to the module that uses it and means a module of
the same package.
-/

namespace AddonBuilder.Linker

open Json Package Text Assoc Path
open Package (Packages Config)

/-- What linking starts from. -/
structure Setting where
  files : Files
  /-- How strings are held that come from files. -/
  strings : Strings := .bytes
  target : Config
  pkgs : Packages
  /-- The packages at hand. -/
  available : List Text
  /-- Whether a missing module is an error outside tests. -/
  abortOnMissing : Bool := false

/-- What a search leaves behind. -/
structure Trail where
  lookedIn : List String := []
  notes : String := ""

/-- A search: it may fail, and leaves its trail in any case. -/
abbrev Search := ExceptT Fault (StateM Trail)

/-- A computation on packages as part of a search. -/
def liftPackage {α : Type} (e : Except Package.Fault α) : Search α :=
  match e with
  | .ok a => pure a
  | .error f => throw (.pkg f)

def lookIn (file : String) : Search Unit :=
  modify fun t => { t with lookedIn := t.lookedIn ++ [file] }

def noteLine (s : String) : Search Unit := modify fun t => { t with notes := t.notes ++ s ++ "\n" }

/-- The name under which a file of a package's library directory is found there. -/
def nameInLibrary (files : Files) (cfg : Config) (file : String) : Except Fault String := do
  let file := files.absolute file
  let lib ← (field cfg "lib").mapError .pkg
  let dirs ← (asElements lib).mapError .pkg
  match dirs with
  | [] => throw (defect .index)
  | first :: _ =>
    let dir ← (asText first).mapError .pkg
    let root ← (rootDir cfg).mapError .pkg
    let library := files.absolute (join root dir.display)
    match dropStart? library.toList file.toList with
    | none =>
      let name ← (field cfg "name").mapError .pkg
      throw (.unreachable file name.plain.display dir.display)
    | some rest =>
      let name := rest.dropWhile (· = '/')
      return String.ofList (name.take (name.length - 3))

/-- The files that the main module of a package may be. -/
def mainFiles (root main : String) (library : Option String) : List String :=
  let main := withoutEnding main
  let main := (afterStart? main "./").getD main
  join root (main ++ ".js") :: library.toList.map fun l => joinAll root [l, main ++ ".js"]

/-- The file name of a module, and that name without its ending. -/
def fileName (name : String) : String × String :=
  if endsWith name ".js" then (name, withoutEnding name)
  else match beforeEnd? name ".json" with
    | some stem => (name, stem)
    | none => (name ++ ".js", name)

def knownPackage (s : Setting) (pkg : Text) : Search Config :=
  match get? s.pkgs pkg with
  | some cfg => pure cfg
  | none => throw (defect .key)

/-- The first result of a search for each element in turn. -/
def firstFound {α β : Type} (look : α → Search (Option β)) : List α → Search (Option β)
  | [] => pure none
  | a :: rest => do
    match ← look a with
    | some b => return some b
    | none => firstFound look rest

def sectionDirs (cfg : Config) (sec : String) : Search (List Text) :=
  match get? cfg sec with
  | none => pure []
  | some v => liftPackage do (← Package.asElements v).mapM Package.asText

def inPackage (s : Setting) (sections : List String) (name : String) (pkg : Text) :
    Search (Option Module) := do
  let cfg ← knownPackage s pkg
  let (file, stem) := fileName name
  firstFound (fun sec => do
    firstFound (fun dir => do
      let root ← liftPackage (Package.rootDir cfg)
      let path := joinAll root [display dir, file]
      lookIn path
      if !s.files.contains path then return none
      let page := joinAll root ["docs", stem ++ ".md"]
      let documentation :=
        if sec = "lib" && s.files.contains page then some page else none
      let packageName ← liftPackage (Package.name cfg)
      return some { pkg := packageName.display, sec, name, file := path, documentation })
      (← sectionDirs cfg sec)) sections

/-- Looks in a package, if there is one of that name. -/
def inPackageIfKnown (s : Setting) (sections : List String) (name : String) (pkg : Text) :
    Search (Option Module) :=
  if contains s.pkgs pkg then inPackage s sections name pkg else pure none

def mainModule (s : Setting) (pkg : Text) : Search (Option Module) := do
  match get? s.pkgs pkg with
  | none => return none
  | some cfg =>
    match Package.given? cfg "main" with
    | none => return none
    | some main =>
      let root ← liftPackage (Package.rootDir cfg)
      let main ← liftPackage (Package.asText main)
      firstFound (fun file => do
        lookIn file
        if !s.files.contains file then return none
        let name ← nameInLibrary s.files cfg file
        let packageName ← liftPackage (Package.name cfg)
        return some { pkg := packageName.display, sec := "lib", name, file, documentation := none })
        (mainFiles root main.display none)

/-- The packages in which a module of a package looks for others. -/
def searchPath (s : Setting) (pkg : Text) : Search (List Text) := do
  let cfg ← knownPackage s pkg
  match get? cfg "dependencies" with
  | some v => do
    let names ← liftPackage do (← Package.asElements v).mapM Package.dependencyName
    return pkg :: names
  | none => return pkg :: s.available.mergeSort le

def inSearchPath (s : Setting) (pkg : Text) (sections : List String) (name : String) :
    Search (Option Module) := do
  firstFound (inPackage s sections name) (← searchPath s pkg)

/-- The sections in which a module of a section may look: tests may use everything, other code no
tests. -/
def visibleSections (user : Module) : Except Fault (List String) :=
  if user.sec = "tests" then .ok ["tests", "lib"]
  else if user.sec = "lib" then .ok ["lib"]
  else .error (.badSection user.sec)

/-- Climbs along the leading dots of a relative name: the directory of the user, and the names left
of what it asks for. -/
def climb (bad : String → Fault) : List String → List String → Except Fault (List String)
  | _, [] => .error (defect .index)
  | base, step :: rest =>
    if step = "." then climb bad base rest
    else if step = ".." then
      match base with
      | [] => .error (bad "too many ..")
      | _ => climb bad base.dropLast rest
    else .ok (base ++ step :: rest)

/-- Whether a name is looked up from the module that asks. -/
def isRelative (name : String) : Bool := beginsWith name "./" || beginsWith name "../"

/-- A relative name, seen from the directory of the module that asks. -/
def relativeName (user : Module) (name : String) : Except Fault String := do
  let base := (names user.name).dropLast
  return joinStrings "/" (← climb (.badName · name user) base (names name))

/-- A name as it stands in the table of modules that have moved. -/
def formerName (name : String) : String :=
  let name := withoutEnding name
  let name := (afterStart? name "addon-kit/").getD name
  (afterStart? name "api-utils/").getD name

/-- Warns about a former name, unless the target asks not to. -/
def warnMoved (s : Setting) (user : Module) (line : Option Nat) (name new : String) :
    Search Unit := do
  if contains s.target "ignore-deprecated-path" then return ()
  noteLine "Warning: Use of deprecated require path:"
  match line with
  | none => throw (defect .kind)
  | some n =>
    noteLine ("  In " ++ user.file ++ ":" ++ toString n ++ ":")
    noteLine ("    require('" ++ name ++ "').")
    noteLine "  New path should be:"
    noteLine ("    require('" ++ new ++ "')")

/-- The module of a name that starts with a package, or the main module of a package. -/
def byPackage (s : Setting) (sections : List String) (name : String) : Search (Option Module) :=
  match names name with
  | first :: second :: rest =>
    inPackageIfKnown s sections (joinStrings "/" (second :: rest)) first
  | _ => mainModule s name

/-- The module that a name means for its user, if there is one; `line` is where the user first
calls for it. -/
def resolve (s : Setting) (user : Module) (name : String) (line : Option Nat) :
    Search (Option Module) :=
  if name.isEmpty then throw (.badName "no actual modulename" name user)
  else do
    let sections ← visibleSections user
    let own : Text := user.pkg
    if isRelative name then
      let inside ← relativeName user name
      inPackageIfKnown s sections inside own
    else
      let direct ← byPackage s sections name
      if direct.isSome then return direct
      let near ← inSearchPath s own sections name
      if near.isSome then return near
      match get? relocated (formerName name) with
      | none => return none
      | some new =>
        warnMoved s user line name new
        inSearchPath s own sections new

end AddonBuilder.Linker
