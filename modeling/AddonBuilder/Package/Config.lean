import AddonBuilder.Files.Tree
import AddonBuilder.Json.Parser
import AddonBuilder.Package.Fault

/-!
# Descriptions of packages

A package is a directory with a file `package.json`.
-/

namespace AddonBuilder.Package

open Json Assoc Value Path

/-- The description of a package: the members of its file, completed. -/
abbrev Config := Members

/-- The file that describes a package. -/
def manifestName : String := "package.json"

/-- The package that the tools and libraries come from. -/
def libraryName : String := "addon-sdk"

def wrongKind {α : Type} : Except Fault α := .error (.defect .kind)

/-- A text; anything else is a fault. -/
def asText : Value → Except Fault Text
  | .text t => .ok t
  | _ => wrongKind

/-- What a loop over a value runs through. -/
def asElements (v : Value) : Except Fault (List Value) :=
  match v.elements? with
  | some l => .ok l
  | none => wrongKind

/-- A field that has to be there. -/
def field (cfg : Config) (name : String) : Except Fault Value :=
  match get? cfg name with
  | some v => .ok v
  | none => .error (.field name)

/-- A member that counts as given. -/
def given? (cfg : Config) (name : String) : Option Value :=
  (get? cfg name).filter isGiven

/-- A path below a directory, from a value that has to be a text. -/
def joinValue (dir : String) (v : Value) : Except Fault String :=
  (asText v).map fun t => join dir t.display

/-- What a table of directories says about a name.  A text or an array that holds the name is no
table, and a value of another kind cannot be asked. -/
def dirIn (table : Value) (name : String) : Except Fault (Option Value) :=
  match table with
  | .object members => .ok (get? members name)
  | .text t => if Text.occurs (Text.ofString name) t then wrongKind else .ok none
  | .array items => if items.any (· == str name) then wrongKind else .ok none
  | _ => wrongKind

def firstAnswer {α : Type} (ask : String → Except Fault (Option α)) :
    List String → Except Fault (Option α)
  | [] => .ok none
  | name :: rest =>
    match ask name with
    | .ok none => firstAnswer ask rest
    | answer => answer

/-- The directory of a section of a package, which goes by any of the given names: a member of that
name, an entry of the table `directories`, an existing directory, or the package's own directory if
that is allowed. -/
def sectionDir (files : Files) (cfg : Config) (base : String) (names : List String)
    (allowRoot : Bool) : Except Fault (Option String) := do
  let ownMember name : Except Fault (Option String) :=
    match given? cfg name with
    | some v => (joinValue base v).map some
    | none => .ok none
  let listed name : Except Fault (Option String) :=
    match get? cfg "directories" with
    | none => .ok none
    | some table => do
      match ← dirIn table name with
      | some v => (joinValue base v).map some
      | none => return none
  if let some found ← firstAnswer ownMember names then return some found
  if let some found ← firstAnswer listed names then return some found
  if let some name := names.find? fun name => files.isDir (join base name) then
    return some (join base name)
  return if allowRoot then some (files.absolute base) else none

/-- The description with the directory of a section set, if there is one. -/
def withSection (files : Files) (cfg : Config) (sec base : String) (names : List String)
    (allowRoot : Bool) : Except Fault Config := do
  match ← sectionDir files cfg base names allowRoot with
  | some dir =>
    return if dir.isEmpty then cfg
      else insert cfg sec (str (files.absolute dir))
  | none => return cfg

/-- The description with a text at a key turned into a list of that text. -/
def withList (cfg : Config) (key : String) : Config :=
  match given? cfg key with
  | some (.text t) => insert cfg key (.array [.text t])
  | _ => cfg

/-- The members of a value that is read as an object.  A list of pairs will do as well as an object;
otherwise there is a reason, or the value is of the wrong kind. -/
def objectMembers (v : Value) : Except (Option Text) Members :=
  match v with
  | .object members => .ok members
  | v => match v.elements? with
    | none => .error none
    | some items => fromPairs 0 [] items
where
  /-- Adds pairs to members, counting them. -/
  fromPairs (n : Nat) (members : Members) : List Value → Except (Option Text) Members
    | [] => .ok members
    | item :: rest =>
      match item.elements? with
      | some [.text k, v] => fromPairs (n + 1) (insert members k v) rest
      | some [_, _] | none => .error none
      | some l => .error (some ("dictionary update sequence element #" ++ Text.ofNat n ++
          " has length " ++ Text.ofNat l.length ++ "; 2 is required"))

def loadMembers (files : Files) (path : String) : Except Fault Members :=
  match files.read? path with
  | none => .error (.defect .file)
  | some bytes =>
    match decodeUtf8 bytes with
    | .error e => .error (.unreadable path (e.message? (bytesSource bytes)))
    | .ok v =>
      match objectMembers v with
      | .ok members => .ok members
      | .error (some reason) => .error (.unreadable path (some reason))
      | .error none => wrongKind

/-- The packages whose names stand for the library in old descriptions. -/
def formerNames : List String := ["addon-kit", "api-utils"]

/-- Dependencies without the former names, and with the library at the end. -/
def withLibrary (dependencies : List Value) : List Value :=
  dependencies.filter (fun d => !formerNames.any fun n => d == str n) ++ [str libraryName]

/-- The description with a default file at a key, if the key is not given and the file exists. -/
def withDefaultFile (files : Files) (path key file : String) (cfg : Config) : Config :=
  if (given? cfg key).isNone && files.isFile (join path file) then
    insert cfg key (str file)
  else cfg

/-- The description with the main module found by its usual name. -/
def withMain (files : Files) (path : String) (cfg : Config) : Except Fault Config := do
  if contains cfg "main" then return cfg
  match get? cfg "lib" with
  | none => return cfg
  | some lib =>
    let dirs ← asElements lib
    let programs ← dirs.mapM fun d => do
      return join (← joinValue path d) "main.js"
    return if programs.any files.contains then insert cfg "main" (str "main")
      else cfg

/-- The configuration in a directory, completed with what it leaves out. -/
def load (files : Files) (path : String) : Except Fault Config := do
  let manifest := join path manifestName
  if !files.isFile manifest then throw (.noManifest path)
  let cfg ← loadMembers files manifest
  let cfg := if contains cfg "name" then cfg
    else insert cfg "name" (str (base path))
  let cfg := if (given? cfg "tests").isNone && files.isDir (join path "test") then
    insert cfg "tests" (str "test") else cfg
  let cfg ← withSection files cfg "lib" path ["lib"] true
  let cfg ← withSection files cfg "tests" path ["test", "tests"] false
  let cfg ← withSection files cfg "doc" path ["doc", "docs"] false
  let cfg ← withSection files cfg "data" path ["data"] false
  let cfg ← withSection files cfg "packages" path ["packages"] false
  let cfg ← withSection files cfg "locale" path ["locale"] false
  let cfg := withDefaultFile files path "icon" "icon.png" cfg
  let cfg := withDefaultFile files path "icon64" "icon64.png" cfg
  let cfg := ["lib", "tests", "dependencies", "packages"].foldl withList cfg
  let cfg ← withMain files path cfg
  let cfg := insert cfg "root_dir" (str path)
  match get? cfg "dependencies" with
  | none => return cfg
  | some dependencies =>
    return insert cfg "dependencies" (.array (withLibrary (← asElements dependencies)))

/-- The name a package gives itself. -/
def name (cfg : Config) : Except Fault Text := do asText (← field cfg "name")

/-- The directory a package was found in. -/
def rootDir (cfg : Config) : Except Fault String := do
  return (← asText (← field cfg "root_dir")).display

def resolve (cfg : Config) (dir : Value) : Except Fault String := do
  joinValue (← rootDir cfg) dir

/-- The directories of a section, each below the directory of the package. -/
def resolveAll (cfg : Config) (dirs : Value) : Except Fault (List String) := do
  (← asElements dirs).mapM (resolve cfg)

end AddonBuilder.Package
