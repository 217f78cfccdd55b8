import AddonBuilder.Package.Build
import AddonBuilder.Package.Start

/-!
# What the tool is told by files

The tool finds the package it is to work on in the current directory or above it.
-/

namespace AddonBuilder.Tool

open Json
open Session

/-- The nearest directory, from a path upwards, that holds a package. -/
def nearestPackage? (files : Files) : Nat → String → Option String
  | 0, _ => none
  | n + 1, path =>
    if files.contains (Path.join path Package.manifestName) then some path
    else
      let (above, last) := Path.split path
      if last = "" then none else nearestPackage? files n above

def packageAbove? (files : Files) (path : String) : Option String :=
  nearestPackage? files (path.length + 1) path

def namedArguments (root : String) (name : Value) : Command (List Value) := do
  let path := Path.join root "local.json"
  let isDefault := name == Value.str "default"
  if !(← currentFiles).isFile path then
    if isDefault then return []
    printError ("File does not exist: " ++ path)
    leave 1
  let members ← ofExcept .pkg (Package.loadMembers (← currentFiles) path)
  let some configs := Assoc.get? members "configs"
    | printError "'configs' key not found in local.json."
      leave 1
  let found ←
    match configs, name with
    | .object m, .text t => pure (Assoc.contains m t)
    | .object _, .array _ | .object _, .object _ => flaw .kind
    | .object _, _ => pure false
    | .array items, v => pure (items.any (· == v))
    | .text t, .text part => pure (Text.occurs part t)
    | _, _ => flaw .kind
  if !found then
    if isDefault then return []
    printError ("No config found for '" ++ name.plain ++ "'.")
    leave 1
  match configs, name with
  | .object m, .text t =>
    match Assoc.get? m t with
    | some (.array l) => return l
    | _ =>
      printError ("Config for '" ++ name.plain ++ "' must be a list of strings.")
      leave 1
  | _, _ => flaw .kind

/-- A new identifier of sixteen bytes, in hexadecimal groups. -/
def newUniqueId (random : Bytes) : Text :=
  let bytes := (random ++ List.replicate 16 0).take 16
  let digits := (bytes.flatMap fun b => (Text.hex 2 b.toNat).toList).mapIdx fun i d =>
    if i = 12 then '4' else if i = 16 then 'a' else d
  Text.ofString (Text.joinStrings "-" ([(0, 8), (8, 4), (12, 4), (16, 4), (20, 12)].map
    fun (start, size) => String.ofList ((digits.drop start).take size)))

/-- The identifier of an add-on as it is published; without one of its own it gets a new one. -/
def publishedId (random : Bytes) (cfg : Members) : Except Defect Value :=
  match Assoc.get? cfg "id" with
  | none => .ok (.text (Package.qualifiedId (newUniqueId random)))
  | some (.text t) => .ok (.text (Package.qualifiedId t))
  | some v => do
    if ← Package.hasKey "@" v then return v
    throw .kind

end AddonBuilder.Tool
