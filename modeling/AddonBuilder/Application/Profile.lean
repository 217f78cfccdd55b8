import AddonBuilder.Application.Settings
import AddonBuilder.Session.Basic

/-!
# Profiles

Settings are added to the file `user.js` of a profile in **blocks** between two marks, so that the
last block can be taken away again.
-/

namespace AddonBuilder.Application

open Json Path Text
open Session

/-- A directory with settings and add-ons.  A new one was made for one run and is removed after it.
-/
structure Profile where
  dir : String
  /-- Whether it was made for this run. -/
  isNew : Bool
  settings : Settings

def blockStart : String := "#MozRunner Prefs Start"

def blockEnd : String := "#MozRunner Prefs End"

/-- The block that sets the given settings. -/
def settingsBlock (s : Settings) : Except EncodeError Text := do
  let lines ← s.mapM fun (name, v) => do
    let line : Text := "user_pref(" ++ (← (Value.text name).encode {}) ++ ", " ++ (← v.encode {}) ++
      ");\n"
    return line
  let block : Text := "\n" ++ ofString blockStart ++ "\n" ++ lines.flatten ++
    ofString blockEnd ++ "\n"
  return block

def lastIndex? (lines : List String) (line : String) : Option Nat :=
  (lines.reverse.findIdx? (· = line)).map (lines.length - 1 - ·)

/-- Lines without the last block of settings; none if there is no block. -/
def withoutLastBlock (lines : List String) : Except Defect (Option (List String)) :=
  match lastIndex? lines blockStart, lastIndex? lines blockEnd with
  | none, none => .ok none
  | none, some _ => .error .assumption
  | some _, none => .error .name
  | some s, some e =>
    if s < e then .ok (some (lines.take s ++ lines.drop (e + 1))) else .error .name

/-- A directory with those above it; what cannot be made is left out. -/
def makePath : Nat → String → Files → Files
  | 0, _, f => f
  | n + 1, path, f =>
    let (above, last) := match split path with
      | (above, "") => split above
      | p => p
    let missing := above ≠ "" && last ≠ "" && !f.contains above
    let f := if missing then makePath n above f else f
    if missing && last = "." then f else (f.makeDir? path).getD f

def ensurePath (path : String) : Command Unit :=
  modify fun s => { s with files := makePath (path.length + 1) path s.files }

namespace Profile

/-- The file of a profile that settings are added to. -/
def settingsFile (p : Profile) : String := join p.dir "user.js"

/-- Adds a block behind the settings that are there. -/
def addSettings (p : Profile) (s : Settings) : Command Unit := do
  let old := ((← currentFiles).read? p.settingsFile).getD []
  writeBytes p.settingsFile old
  match settingsBlock s with
  | .error _ => flaw .kind
  | .ok block => writeBytes p.settingsFile (old ++ (← demand .unencodable (Codec.encodeUtf8? block)))

/-- Takes the last block of settings away; tells whether there was one. -/
def dropSettings (p : Profile) : Command Bool := do
  let text ← readString p.settingsFile
  let strings := (← get).strings
  match ← ofExcept .defect (withoutLastBlock (strings.lines text)) with
  | none => return false
  | some rest =>
    writeBytes p.settingsFile (strings.write (joinStrings "\n" rest))
    return true

/-- Takes blocks of settings away, at most as many as the count. -/
def dropBlocks (p : Profile) : Nat → Command Unit
  | 0 => return ()
  | n + 1 => do if ← p.dropSettings then p.dropBlocks n

/-- Takes away block after block until none is left. -/
def dropAllSettings (p : Profile) : Command Unit := do
  p.dropBlocks ((← readBytes p.settingsFile).length + 1)

def unpacked (p : Profile) : Command (List String) :=
  return (Assoc.get? (← get).unpacked p.dir).getD []

/-- Unpacks an archive into a directory. -/
def unpack (archive : Archive) (dir : String) : Command Unit :=
  archive.forM fun e => do
    let path := join dir e.name
    if e.isDir then ensurePath path
    else
      if !(← currentFiles).isDir (parent path) then ensurePath (parent path)
      writeBytes path ((archive.content? e.name).getD [])

/-- Where an add-on goes, by its description. -/
def placeFor (extensions : String) (description : Bytes) : Command (String × Bool) := do
  let d ← ofExcept .defect (Install.details description)
  match d.id with
  | none => flaw .kind
  | some id => return (join extensions id.display, d.unpack)

/-- Installs one add-on, an archive or a directory. -/
def installOne (p : Profile) (extensions path : String) : Command Unit := do
  if endsWith path ".xpi" then
    match ← readNode path with
    | .archive a =>
      let description ← demand .key (a.content? Install.fileName)
      let (place, isUnpacked) ← placeFor extensions description
      if isUnpacked then
        unpack a place
        let l ← p.unpacked
        modify fun s => { s with unpacked := Assoc.insert s.unpacked p.dir (l ++ [place]) }
      else copyFile path (place ++ ".xpi")
    | .file _ => fail .notAnArchive
    | .dir => flaw .file
  else
    let (place, _) ← placeFor extensions (← readBytes (join path Install.fileName))
    copyDir path place

/-- Installs an add-on, or all add-ons of a directory. -/
def install (p : Profile) (path : String) : Command Unit := do
  let extensions := join p.dir "extensions"
  if !(← currentFiles).contains extensions then makeDirs extensions
  let isOne := endsWith path ".xpi" || (← currentFiles).contains (join path Install.fileName)
  let paths ← if isOne then pure [path] else do
    let names ← demand .file ((← currentFiles).list? path)
    pure (names.map (join path))
  paths.forM (p.installOne extensions)

/-- A profile in a directory, or in a new one, with add-ons and settings. -/
def create (own : Settings) (dir : Option String) (addons : List String) (given : Settings) :
    Command Profile := do
  let p : Profile ← match dir.filter (· ≠ "") with
    | some d => pure ⟨d, false, Assoc.merge own given⟩
    | none => do pure ⟨← temporaryDir ".mozrunner", true, Assoc.merge own given⟩
  modify fun s => { s with unpacked := Assoc.insert s.unpacked p.dir [] }
  addons.forM p.install
  p.addSettings p.settings
  return p

def removeAddons (p : Profile) : Command Unit := do
  (← p.unpacked).forM fun path =>
    modify fun s => { s with files := (s.files.removeDir? path).getD s.files }

/-- Leaves the profile as it was before the run. -/
def clean (p : Profile) : Command Unit := do
  if p.isNew then
    match (← currentFiles).removeDir? p.dir with
    | some f => setFiles f
    | none =>
      print ("Error Cleaning up: [Errno 2] No such file or directory: " ++ quoted (ofString p.dir))
  else
    p.dropAllSettings
    p.removeAddons

end Profile

end AddonBuilder.Application
