import AddonBuilder.Package.Dependencies

/-!
# Finding packages

A directory with a description is a package; any other directory is searched for packages among its
directories whose names do not start with a dot.
-/

namespace AddonBuilder.Package

open Json Assoc

/-- The directories in which a package says that further packages are. -/
def packageDirs (cfg : Config) : Except Fault (List String) :=
  match get? cfg "packages" with
  | none => .ok []
  | some dirs => resolveAll cfg dirs

def packagePaths (files : Files) (dir : String) : Except Fault (List String) :=
  if files.contains (Path.join dir manifestName) then .ok [dir]
  else match files.list? dir with
    | none => .error (.defect .file)
    | some names =>
      .ok <| ((names.filter fun n => !Text.beginsWith n ".").map (Path.join dir)).filter
        files.isDir

/-- Whether two paths lead to the same directory; both must lead somewhere. -/
def sameFile (files : Files) (a b : String) : Except Fault Bool :=
  match files.tree.locate? files.here a, files.tree.locate? files.here b with
  | some l, some m =>
    if (files.tree.get? l).isSome && (files.tree.get? m).isSome then .ok (l = m)
    else .error (.defect .file)
  | _, _ => .error (.defect .file)

/-- A search under way: the packages found and the directories left to search, the next one
first. -/
structure Search where
  found : Packages
  pending : List String

def Search.add (files : Files) (s : Search) (path : String) : Except Fault Search := do
  let cfg ← load files path
  let name ← name cfg
  match get? s.found name with
  | some other =>
    let otherPath ← rootDir other
    if ← sameFile files otherPath path then return s else throw (.duplicate path otherPath)
  | none =>
    let more ← packageDirs cfg
    return { found := insert s.found name cfg, pending := more.reverse ++ s.pending }

/-- Searches the pending directories, at most `fuel` of them. -/
def Search.run (files : Files) : Nat → Search → Except Fault Packages
  | 0, s => .ok s.found
  | fuel + 1, s =>
    match s.pending with
    | [] => .ok s.found
    | dir :: rest => do
      let paths ← packagePaths files dir
      let next ← paths.foldlM (Search.add files) { s with pending := rest }
      Search.run files fuel next

/-- A bound for the number of directories searched.  A search starts with `start` directories, each
with at most as many packages as the tree has nodes; every other package lies in a directory of the
tree of its own, and each package adds one directory. -/
def searchBound (files : Files) (start : Nat) : Nat :=
  (start + 1) * (files.tree.length + 2) * 2 + start

/-- The packages that a target can use: the target, and what is found in the library's directory,
in the target's package directories, in `packages` below a root, and on a search path. -/
def discover (files : Files) (library root : String) (target : Config)
    (searchPath : List String) : Except Fault Packages := do
  let own ← packageDirs target
  let shared := Path.join root "packages"
  let shared := if files.isDir shared then [shared] else []
  let start := library :: (own ++ shared ++ searchPath)
  let found : Packages := [(← name target, target)]
  Search.run files (searchBound files start.length) ⟨found, start.reverse⟩

/-- A description that only has a name. -/
def placeholder : Config := [(Text.ofString "name", Value.str "dummy")]

/-- The packages found without a target. -/
def discoverAll (files : Files) (library root : String) : Except Fault Packages := do
  return erase (← discover files library root placeholder []) "dummy"

/-- The names of the packages that have a module of a given name at the top of a library
directory. -/
def packagesWithModule (files : Files) (pkgs : Packages) (module_ : String) :
    Except Fault (List Text) := do
  let found ← pkgs.mapM fun (_, cfg) => do
    match get? cfg "lib" with
    | none => return none
    | some lib =>
      let dirs ← resolveAll cfg lib
      if dirs.any fun d => files.contains (Path.join d (module_ ++ ".js")) then
        return some (← name cfg)
      else return none
  return found.filterMap id

/-- The files below a place, with their sizes. -/
inductive Listing where
  | file (size : Nat)
  | dir (entries : List (String × Listing))

def nodeSize : Node → Nat
  | .file content => content.length
  | _ => 0

def listing (t : FileTree) : Nat → Location → Listing
  | 0, _ => .dir []
  | depth + 1, l =>
    match t.get? l with
    | some .dir => .dir ((t.children l).map fun n => (n, listing t depth (l ++ [n])))
    | some node => .file (nodeSize node)
    | none => .dir []

/-- What the index says of a package. -/
structure IndexEntry where
  cfg : Config
  files : Listing
  readme : Option Text

def indexEntry (files : Files) (cfg : Config) : Except Fault IndexEntry := do
  let root ← rootDir cfg
  match files.tree.locate? files.here root with
  | none => throw (.defect .file)
  | some l =>
    let readme ← match files.read? (root ++ "/README.md") with
      | none => pure none
      | some bytes => match Codec.decodeUtf8? bytes with
        | some t => pure (some t)
        | none => throw (.defect .encoding)
    return {
      cfg := erase cfg "root_dir"
      files := listing files.tree (files.tree.length + 1) l
      readme }

/-- What the index says of each package. -/
def index (files : Files) (pkgs : Packages) : Except Fault (List (Text × IndexEntry)) :=
  pkgs.mapM fun (n, cfg) => do return (n, ← indexEntry files cfg)

/-- Loads code by its name.  There is none that could be loaded. -/
def loadCode {α : Type} : Value → Except Fault α
  | .text [] => throw (.defect .value)
  | .text _ => throw .noModule
  | _ => wrongKind

/-- Starts the command line tool that a package brings along.  Tools are code of another kind, so
that this always ends in a fault. -/
def callTool (files : Files) (library : String) (pkg : Text) : Except Fault Unit := do
  let pkgs ← discover files library library placeholder []
  match get? pkgs pkg with
  | none => throw (.stopped ("This tool requires the '" ++ pkg ++ "' package.\n"))
  | some cfg =>
    match get? cfg "python-lib" with
    | none => throw (.defect .key)
    | some dirs =>
      let _ ← resolveAll cfg dirs
      loadCode ((get? cfg "python-cmdline-tool").getD .null)

/-- Loads the code with which packages extend the tool. -/
def loadPlugins (pkgs : Packages) (used : List Text) : Except Fault Unit :=
  used.forM fun pkg => do
    match get? pkgs pkg with
    | none => throw (.defect .key)
    | some cfg =>
      let listed (key : String) := (get? cfg key).getD (.array [])
      let _ ← resolveAll cfg (listed "python-lib")
      (← asElements (listed "python-plugins")).forM loadCode

end AddonBuilder.Package
