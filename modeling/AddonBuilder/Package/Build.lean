import AddonBuilder.Locale.Properties
import AddonBuilder.Package.Dependencies
import AddonBuilder.Package.Name

/-!
# The build of a target

A build tells where the sections of each package are, what the locales of all packages together say,
which module loads the others, and which icons and preferences the add-on has.
-/

namespace AddonBuilder.Package

open Json Assoc

/-- What an extension is packed from. -/
structure Build where
  /-- The directory of each section of each package. -/
  pkgs : Assoc Text (Assoc Text String) := []
  /-- The table of each language. -/
  locale : Assoc Text Members := []
  /-- The members that are set only where a description asks for them, in order of setting. -/
  extra : Members := []

def Build.members (b : Build) : Members :=
  [(Text.ofString "packages", Value.object (b.pkgs.map fun (name, sections) =>
      (name, Value.object (sections.map fun (s, d) => (s, Value.str d))))),
   (Text.ofString "locale", Value.object (b.locale.map fun (l, table) => (l, Value.object table)))] ++
    b.extra

/-- Which tests are part of a build. -/
structure Scope where
  tests : Bool := true
  /-- Whether the tests of all packages are meant, and not only those of the target. -/
  dependencyTests : Bool := false
  /-- Whether the tests are going to be run. -/
  running : Bool := false

def addDir (name : Text) (sec : Text) (b : Build) (dir : String) : Except Fault Build := do
  match checkName name with
  | .error bad => throw (.stopped (bad.message ++ "\n"))
  | .ok () =>
    let sections := (get? b.pkgs name).getD []
    if contains sections sec then throw (.sectionTwice name sec)
    return { b with
      pkgs := insert b.pkgs name (insert sections sec dir) }

/-- Registers the directories of a section of a package, if it has that section. -/
def addSection (cfg : Config) (sec : String) (b : Build) : Except Fault Build :=
  match get? cfg sec with
  | none => .ok b
  | some dirs => do
    let list := match dirs with
      | .text t => .array [.text t]
      | v => v
    (← asElements list).foldlM (fun b d => do
      let dir ← resolve cfg d
      addDir (← name cfg) sec b dir) b

def language? (file : String) : Option String := Text.beforeEnd? file ".properties"

def addLocaleFile (files : Files) (dir : String) (b : Build) (file : String) :
    Except Fault Build := do
  let path := Path.join dir file
  match language? file, files.read? path with
  | some language, some bytes =>
    match Locale.parseBytes bytes with
    | .error .escape => throw (.defect .encoding)
    | .error fault =>
      throw (.stopped (((fault.message? path).getD []) ++ "\n"))
    | .ok table =>
      let old := (get? b.locale language).getD []
      return { b with locale := insert b.locale language (merge old table) }
  | _, _ => return b

/-- Adds the locales of a package.  Those of the library are for its own tests only. -/
def addLocale (files : Files) (scope : Scope) (cfg : Config) (b : Build) : Except Fault Build :=
  match get? cfg "locale" with
  | none => .ok b
  | some locale => do
    if !scope.running && (← field cfg "name") == Value.str libraryName then return b
    let dir ← resolve cfg locale
    match files.list? dir with
    | none => throw (.defect .file)
    | some names => names.foldlM (addLocaleFile files dir) b

def addTests (wanted : Bool) (cfg : Config) (b : Build) : Except Fault Build :=
  if wanted then addSection cfg "tests" b else .ok b

/-- Sets the module that loads the others, unless it has been set. -/
def addLoader (pkg : Text) (cfg : Config) (b : Build) : Build :=
  match get? cfg "loader" with
  | some loader =>
    if contains b.extra "loader" then b
    else { b with extra := insert b.extra "loader" (.text (pkg ++ "/" ++ loader.plain)) }
  | none => b

def addPackage (files : Files) (scope : Scope) (pkgs : Packages) (b : Build) (pkg : Text) :
    Except Fault Build := do
  match get? pkgs pkg with
  | none => throw (.defect .key)
  | some cfg =>
    let b ← addSection cfg "lib" b
    let b ← addSection cfg "data" b
    let b ← addTests (scope.tests && scope.dependencyTests) cfg b
    let b ← addLocale files scope cfg b
    return addLoader pkg cfg b

/-- Adds the library, unless the module that loads the others has been set. -/
def addLibrary (files : Files) (scope : Scope) (pkgs : Packages) (b : Build) : Except Fault Build :=
  if contains b.extra "loader" then .ok b else addPackage files scope pkgs b libraryName

/-- Moves an icon from the description of the target to the build, as a path. -/
def takeIcon (key : String) : Config × Build → Except Fault (Config × Build)
  | (cfg, b) =>
    match get? cfg key with
    | none => .ok (cfg, b)
    | some icon => do
      let path ← resolve cfg icon
      return (erase cfg key, { b with extra := insert b.extra key (Value.str path) })

/-- An identifier of an add-on: one that is neither an address nor in braces gets a domain. -/
def qualifiedId (id : Text) : Text :=
  if id.contains 0x40 || id.head? = some 0x7B then id else id ++ "@jetpack"

/-- The branch of preferences that belongs to the identifier. -/
def takeIdentifier (cfg : Config) (b : Build) : Except Fault Build :=
  match get? cfg "id" with
  | none => .ok b
  | some id => do
    let branch := qualifiedId (← asText id)
    return { b with extra := insert b.extra "preferencesBranch" (.text branch) }

/-- The branch of preferences: that of the identifier, unless one is named. -/
def takePreferences (cfg : Config) (b : Build) : Except Fault Build := do
  let b ← takeIdentifier cfg b
  match get? cfg "preferences-branch" with
  | none => return b
  | some v => return { b with extra := insert b.extra "preferencesBranch" v }

/-- The build of a target from the packages it uses, and the packages afterwards: the icons of the
target have been moved to the build. -/
def build (files : Files) (scope : Scope) (pkgs : Packages) (target : Text)
    (used : List Text) : Except Fault (Build × Packages) := do
  match get? pkgs target with
  | none => throw (.defect .key)
  | some cfg =>
    let b ← addTests (scope.tests && !scope.dependencyTests) cfg {}
    let b ← used.foldlM (addPackage files scope pkgs) b
    let b ← addLibrary files scope pkgs b
    let (cfg, b) ← takeIcon "icon" (cfg, b)
    let (cfg, b) ← takeIcon "icon64" (cfg, b)
    let b ← takePreferences cfg b
    return (b, insert pkgs target cfg)

end AddonBuilder.Package
