import AddonBuilder.Archive.Basic
import AddonBuilder.Assoc
import AddonBuilder.Files.Path

/-!
# File trees

A file tree maps locations to directories and files.
-/

namespace AddonBuilder

/-- The names from the root down to a file or directory. -/
abbrev Location := List String

/-- What stands at a place of the file system. -/
inductive Node where
  | dir
  | file (content : Bytes)
  | archive (entries : Archive)
deriving DecidableEq, Repr

/-- The node at each place; a directory is a node of its own. -/
abbrev FileTree := Assoc Location Node

namespace Location

def path (l : Location) : String := "/" ++ Text.joinStrings "/" l

def below? (dir l : Location) : Option Location := Text.dropStart? dir l

def le (a b : Location) : Bool := !List.lex b a fun x y => x < y

end Location

def insertBy {α : Type} (le : α → α → Bool) (a : α) : List α → List α
  | [] => [a]
  | b :: l => if le a b then a :: b :: l else b :: insertBy le a l

/-- A list in the given order.  Unlike merging, inserting can be evaluated by the kernel. -/
@[irreducible]
def sortBy {α : Type} (le : α → α → Bool) (l : List α) : List α := l.foldr (insertBy le) []

/-- Strings in their order. -/
def sortedStrings (l : List String) : List String := sortBy (fun a b => a ≤ b) l

namespace FileTree

def get? (t : FileTree) (l : Location) : Option Node :=
  if l.isEmpty then some .dir else Assoc.get? t l

def isDir (t : FileTree) (l : Location) : Bool := get? t l == some .dir

/-- The location to which a walk along names leads from a directory.  The last name need not
exist. -/
def walk? (t : FileTree) : Location → List String → Option Location
  | l, [] => some l
  | l, name :: rest =>
    if !isDir t l then none
    else if name = "" || name = "." then walk? t l rest
    else if name = ".." then walk? t l.dropLast rest
    else walk? t (l ++ [name]) rest

/-- The place a path leads to, if every directory on the way is there. -/
def locate? (t : FileTree) (here : Location) (path : String) : Option Location :=
  if path.isEmpty then none
  else walk? t (if Path.isAbsolute path then [] else here) (Path.names path)

def children (t : FileTree) (l : Location) : List String :=
  sortedStrings <| t.filterMap fun (m, _) =>
    match Location.below? l m with
    | some [name] => some name
    | _ => none

/-- The nodes below a location, each with its way from there, in the order of locations. -/
def descendants (t : FileTree) (l : Location) : List (Location × Node) :=
  sortBy (fun a b => Location.le a.1 b.1) <| t.filterMap fun (m, node) =>
    match Location.below? l m with
    | some (name :: rest) => some (name :: rest, node)
    | _ => none

def put (t : FileTree) (l : Location) (node : Node) : FileTree := Assoc.insert t l node

def removeAll (t : FileTree) (l : Location) : FileTree :=
  t.filter fun (m, _) => (Location.below? l m).isNone

/-- The tree with every missing directory on the way to a location, the location included. -/
def makeDirs (t : FileTree) (l : Location) : FileTree :=
  (List.range l.length).foldl (fun t n =>
    let m := l.take (n + 1)
    if (get? t m).isSome then t else put t m .dir) t

/-- A node together with the directories that lead to it. -/
def putWithParents (t : FileTree) (l : Location) (node : Node) : FileTree :=
  let t := makeDirs t l.dropLast
  match node, get? t l with
  | .dir, some .dir => t
  | _, _ => put t l node

/-- A copy of everything at and below one location, put at another. -/
def copyAll (t : FileTree) (source target : Location) : FileTree :=
  ((source, get? t source) :: (descendants t source).map fun (l, n) => (source ++ l, some n)).foldl
    (fun t (l, node?) =>
      match Location.below? source l, node? with
      | some way, some node => put t (target ++ way) node
      | _, _ => t) t

/-- What becomes of one place. -/
inductive Change where
  | gone
  | now (node : Node)
deriving DecidableEq, Repr

/-- The locations at which two trees differ, with what stands there in the second. -/
def changes (before after : FileTree) : List (Location × Change) :=
  (after.filterMap fun (l, node) =>
    if Assoc.get? before l = some node then none else some (l, .now node)) ++
  (before.filterMap fun (l, _) => if Assoc.contains after l then none else some (l, .gone))

end FileTree

/-- A file tree together with a working directory. -/
structure Files where
  tree : FileTree := []
  here : Location := []
deriving Repr

namespace Files

/-- What stands at a path. -/
def node? (f : Files) (path : String) : Option Node :=
  (f.tree.locate? f.here path).bind f.tree.get?

/-- Whether anything stands at a path. -/
def contains (f : Files) (path : String) : Bool := (f.node? path).isSome

def isDir (f : Files) (path : String) : Bool := f.node? path == some .dir

/-- Whether a file stands at a path. -/
def isFile (f : Files) (path : String) : Bool :=
  match f.node? path with
  | some (.file _) | some (.archive _) => true
  | _ => false

/-- The content of a plain file. -/
def read? (f : Files) (path : String) : Option Bytes :=
  match f.node? path with
  | some (.file content) => some content
  | _ => none

/-- The names in a directory. -/
def list? (f : Files) (path : String) : Option (List String) := do
  let l ← f.tree.locate? f.here path
  if f.tree.isDir l then some (f.tree.children l) else none

/-- The working directory. -/
def herePath (f : Files) : String := f.here.path

/-- A path from the root, seen from the working directory. -/
def absolute (f : Files) (path : String) : String := Path.absolute f.herePath path

/-- The tree with a file at a path; the directory must exist and no directory be in its place. -/
def write? (f : Files) (path : String) (node : Node) : Option Files := do
  let l ← f.tree.locate? f.here path
  if l.isEmpty || !f.tree.isDir l.dropLast || f.tree.isDir l || Text.endsWith path "/" then none
  else some { f with tree := f.tree.put l node }

/-- The tree with a new, empty directory; something at the path already is an error.  Slashes at the
end of the path mean nothing. -/
def makeDir? (f : Files) (path : String) : Option Files := do
  let l ← f.tree.locate? f.here (String.ofList (path.toList.reverse.dropWhile (· = '/')).reverse)
  if (f.tree.get? l).isSome || !f.tree.isDir l.dropLast then none
  else some { f with tree := f.tree.put l .dir }

def removeFile? (f : Files) (path : String) : Option Files := do
  let l ← f.tree.locate? f.here path
  match f.tree.get? l with
  | some (.file _) | some (.archive _) => some { f with tree := Assoc.erase f.tree l }
  | _ => none

def removeDir? (f : Files) (path : String) : Option Files := do
  let l ← f.tree.locate? f.here path
  if l.isEmpty || !f.tree.isDir l then none else some { f with tree := f.tree.removeAll l }

/-- One directory as met on a walk: its path, and the names of the directories and of the files in
it. -/
structure Visit where
  path : String
  dirs : List String
  files : List String
deriving Repr

/-- A walk over a directory and all directories below it, parents first.  Directories with a name
outside `keep` are not entered and not named. -/
def walk (f : Files) (keep : String → Bool) (path : String) : List Visit :=
  match f.tree.locate? f.here path with
  | none => []
  | some l =>
    if !f.tree.isDir l then []
    else
      let ways := [] :: (f.tree.descendants l).filterMap fun (way, node) =>
        if node == .dir && way.all keep then some way else none
      ways.map fun way =>
        let m := l ++ way
        let isDir name := f.tree.isDir (m ++ [name])
        let all := f.tree.children m
        { path := Path.joinAll path way
          dirs := all.filter fun n => isDir n && keep n
          files := all.filter (!isDir ·) }

end Files

end AddonBuilder
