import AddonBuilder.Files.Ignored
import AddonBuilder.Json.Encoding
import AddonBuilder.Package.Config

/-!
# The archive of an add-on

Description and icons come first, then the tables of the languages under `locale/`, then the
directories and files of the template and of the packages under `resources/` in the order of names,
and the options at the end.
-/

namespace AddonBuilder.Extension

open Json Archive Path Assoc Files

/-- What goes into an archive beside the options. -/
structure Shipment where
  /-- The directory with the files that every add-on has. -/
  template : String
  description : Bytes
  /-- Where the archive is to be written. -/
  target : String
  /-- The only files of packages that are kept, if there is a choice. -/
  limit : Option (List String) := none
  /-- Options of the user's own. -/
  extra : Members := []
  withLibrary : Bool := true
  /-- The directory whose `chrome` folder and file are included. -/
  chromeFrom : String := ""

/-- Why an add-on cannot be packed. -/
inductive Fault where
  | defect (d : Defect)
  /-- The user's option has the name of an option that is there already. -/
  | optionTwice (key : Text)
deriving Repr

def Fault.message? : Fault → Option Text
  | defect _ => none
  | optionTwice key => some ("Can't use --harness-option for existing key '" ++ key ++ "'")

/-- A path relative to a directory above it. -/
def nameBelow (root path : String) : String := String.ofList (path.toList.drop (root.length + 1))

/-- The directories and files that an archive is going to have. -/
structure Plan where
  dirs : List String := []
  /-- The path of the file behind each name. -/
  files : Assoc String String := []
deriving Repr

namespace Plan

def addDir (p : Plan) (name : String) : Plan :=
  { p with dirs := p.dirs ++ [name] }

def addFile (p : Plan) (name path : String) : Plan :=
  { p with files := insert p.files name path }

def addEach {α : Type} (l : List α) (add : Plan → α → Plan) (p : Plan) : Plan := l.foldl add p

/-- The directories on the way to a name. -/
def parentsOf (name : String) : List String :=
  let parts := names name
  (List.range (parts.length - 1)).map fun n => Text.joinStrings "/" (parts.take (n + 1))

/-- A plan with the directories on the way to every file. -/
def withParents (p : Plan) : Plan :=
  { p with dirs := p.dirs ++ p.files.flatMap fun (name, _) => parentsOf name }

/-- All names of a plan in alphabetical order, each once. -/
def names (p : Plan) : List String :=
  sortedStrings ((p.dirs ++ keys p.files).eraseDups)

end Plan

/-- The files left out of an archive by name. -/
def ignored (s : Shipment) : List String := [".hgignore", ".DS_Store", "application.ini", s.target]

/-- Plans the `chrome` file and folder of a package.  The names of directories in the folder are cut
as those of the template are. -/
def planChrome (files : Files) (s : Shipment) (p : Plan) : Plan :=
  let single := join s.chromeFrom "chrome.manifest"
  let p := if files.isFile single then p.addFile "chrome.manifest" single else p
  let folder := join s.chromeFrom "chrome"
  if !files.contains folder then p
  else (p.addDir "chrome").addEach (files.walk keepsDir folder) fun p v =>
    let p := p.addEach v.dirs fun p d =>
      p.addDir (nameBelow s.template (join v.path d))
    p.addEach (v.files.filter (keepsFile (ignored s))) fun p f =>
      p.addFile ("chrome/" ++ nameBelow folder (join v.path f)) (join v.path f)

def planTemplate (files : Files) (s : Shipment) (p : Plan) : Plan :=
  p.addEach (files.walk keepsDir s.template) fun p v =>
    let isTop := v.path = s.template
    let keeps f := (!isTop || keepsFile ["install.rdf"] f) && keepsFile (ignored s) f
    let p := p.addEach v.dirs fun p d =>
      p.addDir (nameBelow s.template (join v.path d))
    p.addEach (v.files.filter keeps) fun p f =>
      p.addFile (nameBelow s.template (join v.path f)) (join v.path f)

/-- Adds the files of a section of a package, below `resources/`. -/
def planSection (files : Files) (s : Shipment) (pkg sec dir : String) (p : Plan) :
    Plan :=
  let base := Text.joinStrings "/" ["resources", pkg, sec]
  (p.addDir base).addEach (files.walk keepsDir dir) fun p v =>
    let paths := (v.files.filter (keepsFile (ignored s))).map (join v.path)
    p.addEach (paths.filter fun path => s.limit.all (·.contains path)) fun p path =>
      p.addFile (base ++ "/" ++ nameBelow dir path) path

/-- The members of a value that is gone through by key.  Something empty has none. -/
def entriesOf (v : Value) : Except Fault Members :=
  match v with
  | .object members => .ok members
  | v => if v.elements? matches some [] then .ok [] else .error (.defect .kind)

def planPackages (files : Files) (s : Shipment) (pkgs : Value) (p : Plan) : Except Fault Plan := do
  (← entriesOf pkgs).foldlM (fun p (name, sections) => do
    if !s.withLibrary && name == Text.ofString Package.libraryName then return p
    let p := p.addDir ("resources/" ++ name.display)
    (← entriesOf sections).foldlM (fun p (sec, dir) =>
      match dir with
      | .text d => .ok (planSection files s name.display sec.display d.display p)
      | _ => .error (.defect .kind)) p) p

/-- The mode of a file that is copied. -/
def copiedMode : Nat := 0o100644

/-- The name under which a path is stored: in normal form and not absolute. -/
def storedName (name : String) : String :=
  String.ofList ((normal name).toList.dropWhile (· = '/'))

/-- A file, or a directory without what it holds, copied into an archive. -/
def copied (files : Files) (path name : String) : Except Fault Entry :=
  match files.node? path with
  | none => .error (.defect .file)
  | some .dir => .ok ⟨storedName name ++ "/", [], some dirMode⟩
  | some (.file content) => .ok ⟨storedName name, content, some copiedMode⟩
  | some (.archive _) => .ok ⟨storedName name, [], some copiedMode⟩

/-- An icon, if the options name one. -/
def iconEntry (files : Files) (options : Members) (key name : String) : Except Fault (List Entry) :=
  match get? options key with
  | none => .ok []
  | some icon => do return [← copied files icon.plain.display name]

/-- The UTF-8 form of a text that is written into an archive. -/
def encoded (t : Text) : Except Fault Bytes :=
  match Codec.encodeUtf8? t with
  | some bytes => .ok bytes
  | none => .error (.defect .unencodable)

def jsonText (options : Options) (v : Value) : Except Fault Text :=
  match v.encode options with
  | .ok t => .ok t
  | .error _ => .error (.defect .value)

/-- The tables of all languages, in alphabetical order, and the list of languages. -/
def localeEntries (locale : Value) : Except Fault Archive := do
  let tables := (← entriesOf locale).mergeSort fun a b => Text.le a.1 b.1
  let entries ← tables.mapM fun (language, table) => do
    let text ← jsonText { indent := some 1, sortKeys := true, asciiOnly := false } table
    return { name := "locale/" ++ language.display ++ ".json", content := ← encoded text,
             mode := some fileMode }
  let languages := Value.object
    [(Text.ofString "locales", .array (tables.map fun (l, _) => .text l))]
  return { name := "locale/", content := [], mode := some dirMode } :: entries ++
    [{ name := "locales.json", content := ← encoded ((← jsonText {} languages) ++ "\n"),
       mode := some fileMode }]

/-- The entries for one name of a plan: a directory comes before a file. -/
def nameEntries (files : Files) (p : Plan) (name : String) : Except Fault Archive :=
  let dir : Archive := if p.dirs.contains name then
    [{ name := name ++ "/", content := [], mode := some dirMode }] else []
  match get? p.files name with
  | some path => do return dir ++ [← copied files path name]
  | none => .ok dir

/-- The entries of a plan, in the order of its names. -/
def planEntries (files : Files) (p : Plan) : Except Fault Archive := do
  return (← p.names.mapM (nameEntries files p)).flatten

/-- The options with the user's own. -/
def withExtra (options extra : Members) : Except Fault Members :=
  extra.foldlM (fun options (key, value) =>
    if contains options key then .error (.optionTwice key)
    else .ok (insert options key value)) options

/-- An option that has to be there. -/
def member (options : Members) (key : String) : Except Fault Value :=
  match get? options key with
  | some v => .ok v
  | none => .error (.defect .key)

def usedUp : List String := ["icon", "icon64", "packages", "locale"]

/-- **The entries of an add-on**, and the options that are left for the program that starts it. -/
def entries (files : Files) (s : Shipment) (options : Members) :
    Except Fault (Archive × Members) := do
  let icon ← iconEntry files options "icon" "icon.png"
  let icon64 ← iconEntry files options "icon64" "icon64.png"
  let plan := planTemplate files s (planChrome files s {})
  let plan ← planPackages files s (← member options "packages") plan
  let locales ← localeEntries (← member options "locale")
  let body ← planEntries files plan.withParents
  let left := usedUp.foldl (fun o (key : String) => erase o (Text.ofString key)) options
  let written ← jsonText { indent := some 1, sortKeys := true } (.object (← withExtra left s.extra))
  return ([⟨"install.rdf", s.description, none⟩] ++ icon ++ icon64 ++ locales ++ body ++
    [⟨"harness-options.json", ← encoded written, none⟩], left)

/-- Writes the archive of an add-on, and gives the options that are left. -/
def write (files : Files) (s : Shipment) (options : Members) : Except Fault (Files × Members) := do
  if (files.write? s.target (.archive [])).isNone then throw (.defect .file)
  let (archive, left) ← entries files s options
  match files.write? s.target (.archive archive) with
  | some files => return (files, left)
  | none => throw (.defect .file)

end AddonBuilder.Extension
