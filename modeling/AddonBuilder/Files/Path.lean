import AddonBuilder.Assoc
import AddonBuilder.Text.Blank
import AddonBuilder.Text.Split

/-!
# Paths as text

A path is a text in which slashes divide names.
-/

namespace AddonBuilder.Path

def isAbsolute (p : String) : Bool := Text.beginsWith p "/"

/-- The names between the slashes, empty ones included. -/
def names (p : String) : List String := Text.splitString '/' p

/-- A path below another; an absolute path replaces what stands before it. -/
def join (a b : String) : String :=
  if isAbsolute b then b
  else if a.isEmpty || Text.endsWith a "/" then a ++ b
  else a ++ "/" ++ b

/-- Several paths, each below the one before it. -/
def joinAll (a : String) (more : List String) : String := more.foldl join a

/-- The part before the last slash and the part after it, the first without its trailing slashes
unless it consists of slashes. -/
def split (p : String) : String × String :=
  let letters := p.toList.reverse
  let tail := (letters.takeWhile (· ≠ '/')).reverse
  let head := (letters.dropWhile (· ≠ '/')).reverse
  let trimmed := (head.reverse.dropWhile (· = '/')).reverse
  (String.ofList (if trimmed.isEmpty then head else trimmed), String.ofList tail)

/-- The path without its last name. -/
def parent (p : String) : String := (split p).1

/-- The last name of a path; empty after a slash. -/
def base (p : String) : String := (split p).2

/-- One step of the normal form: the names so far, the last one first. -/
def pushName (rooted : Bool) (done : List String) (name : String) : List String :=
  if name = "" || name = "." then done
  else if name = ".." then
    match done with
    | [] => if rooted then [] else [name]
    | last :: rest => if last = ".." then name :: done else rest
  else name :: done

/-- The names that are left when `.` and `..` are carried out. -/
def normalNames (rooted : Bool) (l : List String) : List String :=
  (l.foldl (pushName rooted) []).reverse

/-- The slashes with which a normal path starts: none, one, or two where exactly two are written. -/
def leadingSlashes (p : String) : String :=
  if Text.beginsWith p "///" then "/"
  else if Text.beginsWith p "//" then "//"
  else if isAbsolute p then "/"
  else ""

def normal (p : String) : String :=
  let root := leadingSlashes p
  let path := root ++ Text.joinStrings "/" (normalNames (!root.isEmpty) (names p))
  if path.isEmpty then "." else path

/-- A path in which a leading `~`, with or without the name of a user, stands for the home directory
of that user.  The name of nobody stays as it is. -/
def expandUser (homes : Assoc String String) (p : String) : String :=
  match p.toList with
  | '~' :: letters =>
    match Assoc.get? homes (String.ofList (letters.takeWhile (· ≠ '/'))) with
    | none => p
    | some home =>
      let path := String.ofList (Text.trimEnd (· = '/') home.toList ++ letters.dropWhile (· ≠ '/'))
      if path.isEmpty then "/" else path
  | _ => p

def absolute (dir p : String) : String := normal (join dir p)

/-- The names that follow the longest common beginning of two lists. -/
def afterCommon : List String → List String → List String × List String
  | a :: as, b :: bs => if a = b then afterCommon as bs else (a :: as, b :: bs)
  | as, bs => (as, bs)

/-- The way from a normal absolute path to another. -/
def relative (start target : String) : String :=
  let parts p := (names p).filter (· ≠ "")
  let (up, down) := afterCommon (parts start) (parts target)
  let way := up.map (fun _ => "..") ++ down
  if way.isEmpty then "." else Text.joinStrings "/" way

end AddonBuilder.Path
