import AddonBuilder.Session.Basic

/-!
# The version of a source tree

A tree that was exported as an archive holds the names that its revision had; one of them that has a
digit is the version.
-/

namespace AddonBuilder.Release

open Session Text

/-- The version of a working copy, short and in full. -/
structure Revision where
  version : String
  full : String
deriving DecidableEq, Repr

def unknown : Revision := ⟨"unknown", ""⟩

/-- What stands between the first quote after an equals sign and the last quote of a line. -/
def quotedAfterEquals? : List Char → Option (List Char)
  | [] => none
  | c :: rest =>
    let here : Option (List Char) :=
      if c = '=' then
        match rest.dropWhile blankChar with
        | '"' :: content =>
          match (content.takeWhile (· ≠ '\n')).reverse.dropWhile (· ≠ '"') with
          | '"' :: reversed => some reversed.reverse
          | _ => none
        | _ => none
      else none
    match here with
    | some t => some t
    | none => quotedAfterEquals? rest

def assignments (content : String) : Assoc String String :=
  (cutAfterLineFeed content.toList).foldl
    (fun found line =>
      let trimmed := trimString (String.ofList line)
      let take (start key : String) (found : Assoc String String) : Assoc String String :=
        if beginsWith trimmed start then
          match quotedAfterEquals? line with
          | some t => Assoc.insert found key (String.ofList t)
          | none => found
        else found
      take "git_full =" "full" (take "git_refnames =" "refnames" found))
    []

def isDigit (c : Char) : Bool := (decimalValue? c.toNat).isSome

/-- The release that the names of a revision tell.  There is none if the names were not filled in; of
the names with a digit and the right start the first in order counts. -/
def ofNames (assigned : Assoc String String) (tagStart : String) :
    Except Defect (Option Revision) := do
  let some names := Assoc.get? assigned "refnames" | throw .key
  let names := trimString names
  if beginsWith names "$Format" then return none
  let inner := trim (fun c => c = '(' || c = ')') names.toList
  let references := (splitString ',' (String.ofList inner)).map trimString
  let tags := (sortedStrings (references.filter fun r => r.toList.any isDigit)).filterMap fun r =>
    afterStart? r tagStart
  let some full := Assoc.get? assigned "full" | throw .key
  let full := trimString full
  return some ⟨tags.head?.getD full, full⟩

/-- What a program prints, without blanks around it; none if it fails. -/
def ask (command : List String) (verbose : Bool) : Command (Option String) := do
  let name := command.headD ""
  match ← start? command with
  | none =>
    if verbose then
      print ("unable to run " ++ name)
      print ("[Errno 2] No such file or directory: " ++ quotedString name)
    return none
  | some (output, code) =>
    if code = 0 then return some (trimString output)
    if verbose then print ("unable to run " ++ name ++ " (error)")
    return none

def treeTop (files : Files) (file relative : String) : String :=
  (splitString '/' relative).foldl (fun path _ => Path.parent path) (files.absolute file)

def ofVersionControl (file relative tagStart : String) (verbose : Bool) :
    Command (Option Revision) := do
  let s ← get
  if !s.files.contains (Path.join (treeTop s.files file relative) ".git") then return none
  let git := if s.platform = "win32" then "git.cmd" else "git"
  let some tag ← ask [git, "describe", "--tags", "--dirty", "--always"] false | return none
  let some version := afterStart? tag tagStart
    | if verbose then
        print ("tag '" ++ tag ++ "' doesn't start with prefix '" ++ tagStart ++ "'")
      return none
  let some full ← ask [git, "rev-parse", "HEAD"] false | return none
  return some ⟨version, if endsWith version "-dirty" then full ++ "-dirty" else full⟩

def ofDir (file relative start : String) (verbose : Bool) : Command (Option Revision) := do
  let name := Path.base (treeTop (← currentFiles) file relative)
  match afterStart? name start with
  | some version => return some ⟨version, ""⟩
  | none =>
    if verbose then
      print ("dirname '" ++ name ++ "' doesn't start with prefix '" ++ start ++ "'")
    return none

/-- Where the file that tells the version stands in the tree. -/
def ownPath : String := "python-lib/cuddlefish/_version.py"

/-- The release of the tree of a file, given the names that its revision had. -/
def find (file : String) (assigned : Assoc String String) : Command Revision := do
  if let some r ← ofExcept .defect (ofNames assigned "") then return r
  if let some r ← ofVersionControl file ownPath "" false then return r
  if let some r ← ofDir file ownPath "addon-sdk-" false then return r
  return unknown

/-- The assignments of a tree that was not exported. -/
def unfilled : Assoc String String := [("refnames", "$Format:%d$"), ("full", "$Format:%H$")]

end AddonBuilder.Release
