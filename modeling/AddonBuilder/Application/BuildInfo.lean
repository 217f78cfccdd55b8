import AddonBuilder.Session.Basic

/-!
# Where an application was built from

Beside the program of an application stand files with sections of entries.
-/

namespace AddonBuilder.Application

open Session Text

/-- The lines of each value, by section and name. -/
abbrev Entries := Assoc (String × String) (List String)

/-- The entries read so far, and where the next one goes. -/
structure EntryReader where
  /-- The sections that were opened so far, also in other files. -/
  sections : List String := []
  entries : Entries := []
  /-- The section, once there is one in this file. -/
  sec : Option String := none
  /-- The name of the entry that an indented line goes on with. -/
  open_ : Option String := none
  /-- How far the line that opened the section or the entry is indented. -/
  indent : Nat := 0
  ownSections : List String := []
  ownEntries : List (String × String) := []
  /-- Whether there is a line that is no entry. -/
  isWrong : Bool := false

/-- The section whose entries hold for all others too. -/
def commonSection : String := "DEFAULT"

def sectionName? (line : List Char) : Option String :=
  match line with
  | '[' :: rest =>
    let before := (rest.reverse.dropWhile (· ≠ ']')).drop 1
    if before.isEmpty then none else some (String.ofList before.reverse)
  | _ => none

namespace EntryReader

/-- The reader after a line that goes on with the open value. -/
def goOn (r : EntryReader) (line : String) : EntryReader :=
  match r.sec, r.open_ with
  | some sec, some name =>
    let key := (sec, name)
    { r with entries := Assoc.insert r.entries key (((Assoc.get? r.entries key).getD []) ++ [line]) }
  | _, _ => r

def openSection (r : EntryReader) (name : String) : Except EntryFault EntryReader :=
  if name = commonSection then .ok { r with sec := some name, open_ := none }
  else if r.ownSections.contains name then .error .repeatedSection
  else .ok { r with
    sec := some name
    open_ := none
    sections := r.sections ++ [name]
    ownSections := name :: r.ownSections }

/-- The reader after a line that is an entry of a section, if it is one. -/
def openEntry (r : EntryReader) (sec : String) (line : List Char) : Except EntryFault EntryReader :=
  let isMark (c : Char) : Bool := c = '=' || c = ':'
  if !line.any isMark then .ok { r with isWrong := true }
  else
    let written := line.takeWhile (!isMark ·)
    let value := trimString (String.ofList (line.drop (written.length + 1)))
    let name := lower (trimStringEnd (String.ofList written))
    let key := (sec, name)
    if r.ownEntries.contains key then .error .repeatedEntry
    else .ok { r with
      entries := Assoc.insert r.entries key [value]
      open_ := if name.isEmpty then none else some name
      ownEntries := key :: r.ownEntries
      isWrong := r.isWrong || name.isEmpty }

/-- Reads one more line.  A section is opened once and an entry made once. -/
def take (r : EntryReader) (line : List Char) : Except EntryFault EntryReader :=
  let trimmed := trim blankChar line
  match trimmed with
  | [] => .ok (r.goOn "")
  | '#' :: _ | ';' :: _ => .ok r
  | _ =>
    let indent := (line.takeWhile blankChar).length
    if r.open_.isSome && r.indent < indent then .ok (r.goOn (String.ofList trimmed))
    else
      let r := { r with indent }
      match sectionName? trimmed, r.sec with
      | some name, _ => r.openSection name
      | none, none => .error .noSection
      | none, some sec => r.openEntry sec trimmed

/-- The reader after a file, of which the lines are given. -/
def readAll (r : EntryReader) (lines : List (List Char)) : Except EntryFault EntryReader := do
  let r ← lines.foldlM take { sections := r.sections, entries := r.entries }
  if r.isWrong then throw .noEntry
  return r

/-- An entry of a section, or of the section for all. -/
def value? (r : EntryReader) (sec name : String) : Option String := do
  if !r.sections.contains sec then none
  let lines ← (Assoc.get? r.entries (sec, name)).or (Assoc.get? r.entries (commonSection, name))
  return trimStringEnd (joinStrings "\n" lines)

end EntryReader

/-- The entries with those of one more file, if it is there. -/
def withEntries (r : EntryReader) (path : String) : Command EntryReader := do
  if (← currentFiles).isFile path then
    ofExcept .entries (r.readAll (cutAfterLineFeed (← readText path).toList))
  else return r

/-- The repositories and revisions of an application and its platform, as far as they are known. -/
def repositoryInfo (binary : String) : Command (List (String × Option String)) := do
  let dir := Path.parent binary
  let application ← withEntries {} (Path.join dir "application.ini")
  let both ← withEntries application (Path.join dir "platform.ini")
  return [ ("application_repository", application.value? "App" "sourcerepository"),
    ("application_changeset", application.value? "App" "sourcestamp"),
    ("platform_repository", both.value? "Build" "sourcerepository"),
    ("platform_changeset", both.value? "Build" "sourcestamp")]

end AddonBuilder.Application
