import AddonBuilder.Files.Tree
import AddonBuilder.Markup.Reader
import AddonBuilder.Text.Lower

/-!
# Install descriptions

An add-on carries a description for the application: a markup document in which a property is the
first element of its name below the root, and its value is what the first child of that element
holds.
-/

namespace AddonBuilder.Install

open Json (Value Members)
open Markup Text

/-- Why a description cannot be edited or read. -/
inductive Fault where
  | defect (d : Defect)
  | noElement (name : String)
deriving DecidableEq, Repr

def Fault.message? : Fault → Option Text
  | defect _ => none
  | noElement name => some ("Element with value not found: " ++ ofString name)

/-- What the first child of an element holds. -/
def valueOf (n : Tree) : Except Defect Value :=
  match n.children with
  | [] => .error .kind
  | child :: _ => .ok child.ownValue

def get? (d : Document) (name : String) : Except Defect (Option Value) :=
  match d.root.named name with
  | [] => .ok none
  | n :: _ => (valueOf n).map some

/-- An element with another value.  A new child can only hold a text. -/
def withFirstValue (v : Value) (n : Tree) : Tree :=
  match n.children with
  | [] => n.withChildren [.leaf .characters v]
  | child :: rest => n.withChildren (child.withValue v :: rest)

def withRootChildren (d : Document) (children : List Tree) : Document :=
  { d with root := d.root.withChildren children }

def set (d : Document) (name : String) (v : Value) : Except Fault Document :=
  match d.root.named name with
  | [] => .error (.noElement name)
  | n :: _ =>
    match n.children, v with
    | _ :: _, _ | [], .text _ =>
      match Tree.changeFirstOf? name (withFirstValue v) d.root.children with
      | some children => .ok (withRootChildren d children)
      | none => .error (.noElement name)
    | [], _ => .error (.defect .kind)

def remove (d : Document) (name : String) : Document :=
  withRootChildren d (Tree.withoutOf name d.root.children)

/-- A description with one more element in its first part. -/
def addToFirst (d : Document) (child : Tree) : Except Fault Document :=
  match Tree.changeFirstOf? "Description" (Tree.append child) d.root.children with
  | some children => .ok (withRootChildren d children)
  | none => .error (.defect .index)

/-- A description with one more element for an item of a list. -/
def addItem (name : String) (d : Document) : Value → Except Fault Document
  | .text t => addToFirst d (.tag name [.ofText t])
  | _ => .error (.defect .kind)

/-- A description with one more element for each element of a list. -/
def addEach (d : Document) (name : String) (list : Option Value) : Except Fault Document :=
  match list with
  | none => .ok d
  | some v =>
    match v.elements? with
    | none => .error (.defect .kind)
    | some items => items.foldlM (addItem name) d

/-- The element for an application with the versions that an add-on runs in. -/
def applicationElement (id least most : String) : Tree :=
  .tag "em:targetApplication" [.tag "Description" [
    .tag "em:id" [.ofText id], .tag "em:minVersion" [.ofText least],
    .tag "em:maxVersion" [.ofText most]]]

/-- The browser for phones. -/
def mobileApplication : Tree :=
  applicationElement "\x7baa3c5121-dab2-40e2-81ca-7ea25febc110\x7d" "26.0" "30.0a1"

/-- What a description says beside the package's own properties. -/
structure Request where
  id : Text
  /-- Where updates are announced. -/
  updateAddress : Option Text := none
  bootstrap : Bool := true
  mobile : Bool := false

def truth (b : Bool) : Value := Value.str (if b then "true" else "false")

/-- The properties that a package states, in the order in which they are set. -/
def properties (r : Request) (cfg : Members) (name : Value) : List (String × Value) :=
  let given (key : String) (d : Value) := (Assoc.get? cfg key).getD d
  [("em:id", .text r.id), ("em:version", given "version" (Value.str "1.0")),
   ("em:name", given "title" (given "fullName" name)),
   ("em:description", given "description" (Value.str "")),
   ("em:creator", given "author" (Value.str "")), ("em:bootstrap", truth r.bootstrap),
   ("em:unpack", truth ((Assoc.get? cfg "unpack").any Value.isGiven))]

def setAll (d : Document) (l : List (String × Value)) : Except Fault Document :=
  l.foldlM (fun d (name, v) => set d name v) d

/-- A description with a property set, or removed if it has no value. -/
def setOrRemove (d : Document) (name : String) (v : Option Value) : Except Fault Document :=
  match v with
  | some v => set d name v
  | none => .ok (remove d name)

/-- The properties for the page on which a user changes preferences.  A package with a page of its own
has no address for it. -/
def withOptions (d : Document) (asked ownPage : Bool) : Except Fault Document := do
  if !asked then return remove (remove d "em:optionsType") "em:optionsURL"
  let d ← set d "em:optionsType" (Value.str "2")
  let d ← set d "em:optionsURL" (Value.str "data:text/xml,<placeholder/>")
  return if ownPage then remove d "em:optionsURL" else d

def withMobile (d : Document) (asked : Bool) : Except Fault Document :=
  if asked then addToFirst d mobileApplication else pure d

/-- What is done once the properties that every package states have been set. -/
def finished (d : Document) (ownPage : Bool) (cfg : Members) (r : Request) :
    Except Fault Document := do
  let given (key : String) := (Assoc.get? cfg key).filter Value.isGiven
  let d ← addEach d "em:translator" (Assoc.get? cfg "translators")
  let d ← addEach d "em:developer" (Assoc.get? cfg "developers")
  let d ← addEach d "em:contributor" (Assoc.get? cfg "contributors")
  let d ← setOrRemove d "em:updateURL" ((r.updateAddress.map Value.text).filter Value.isGiven)
  let d ← withOptions d (given "preferences").isSome ownPage
  let d ← withMobile d r.mobile
  setOrRemove d "em:homepageURL" (given "homepage")

/-- Fills in a template field by field, in the order in which the fields are written. -/
def describe (template : Document) (ownPage : Bool) (cfg : Members) (r : Request) :
    Except Fault Document := do
  let d ← set template "em:id" (.text r.id)
  let d ← set d "em:version" ((Assoc.get? cfg "version").getD (Value.str "1.0"))
  match Assoc.get? cfg "name" with
  | none => throw (.defect .key)
  | some name => finished (← setAll d ((properties r cfg name).drop 2)) ownPage cfg r

/-- The file that describes an extension. -/
def fileName : String := "install.rdf"

/-- The description made from the template of a directory. -/
def describeFrom (files : Files) (dir : String) (cfg : Members) (r : Request) :
    Except Fault Document := do
  match files.read? (Path.join dir fileName) with
  | none => throw (.defect .file)
  | some bytes =>
    let template ← (Markup.read bytes).mapError Fault.defect
    describe template (files.contains (Path.join dir "options.xul")) cfg r

/-! ## Updates -/

/-- Elements made one after another, until one could not be made. -/
structure Partly where
  nodes : List Tree := []
  defect : Option Defect := none

namespace Partly

def andThen (a b : Partly) : Partly :=
  if a.defect.isSome then a else ⟨a.nodes ++ b.nodes, b.defect⟩

/-- All of a list of parts, up to the first that could not be made. -/
def all (l : List Partly) : Partly := l.foldl andThen {}

def wrap (name : String) (p : Partly) : Partly := ⟨[.tag name p.nodes], p.defect⟩

end Partly

def textElement (name : String) (v : Except Defect Value) : Partly :=
  match v with
  | .ok (.text t) => ⟨[.tag name [.ofText t]], none⟩
  | .ok _ => ⟨[], some .kind⟩
  | .error d => ⟨[], some d⟩

def applicationValue (application : Tree) (name : String) : Except Defect Value :=
  match application.named name with
  | [] => .error .index
  | n :: _ => valueOf n

def updateFor (link : Value) (application : Tree) : Partly :=
  Partly.wrap "em:targetApplication" <| Partly.wrap "Description" <| Partly.all <|
    (["em:id", "em:minVersion", "em:maxVersion"].map fun name =>
      textElement name (applicationValue application name)) ++
    [textElement "em:updateLink" (.ok link)]

/-- An update before anything is added to it. -/
def emptyUpdate : Document :=
  { root := .element "RDF"
      [("xmlns", ofString "http://www.w3.org/1999/02/22-rdf-syntax-ns#"),
       ("xmlns:em", ofString "http://www.mozilla.org/2004/em-rdf#")] [] none }

/-- An update with an add-on and the address it can be fetched from.  If that fails, what was made
until then has been added. -/
def addUpdate (update : Document) (d : Document) (link : Value) : Document × Option Defect :=
  match get? d "em:id" with
  | .error e => (update, some e)
  | .ok id =>
    let version := (get? d "em:version").map fun v => v.getD .null
    let body := Partly.wrap "em:updates" <| Partly.wrap "Seq" <| Partly.wrap "li" <|
      Partly.wrap "Description" <|
        Partly.all (textElement "em:version" version ::
          (d.root.named "em:targetApplication").map (updateFor link))
    let about := "urn:mozilla:extension:" ++ (id.getD .null).plain
    let entry := Tree.element "Description" [("about", about)] body.nodes none
    (withRootChildren update (update.root.children ++ [entry]), body.defect)

/-! ## Details -/

/-- What a description says about an add-on. -/
structure Details where
  id : Option Text := none
  name : Option Text := none
  version : Option Text := none
  unpack : Bool := false
deriving Repr

/-- The prefix of the names that belong to an address, with its colon; empty if no prefix is bound to
the address. -/
def prefixFor (d : Document) (address : String) : String :=
  ((d.root.attrs.filter fun (_, v) => v == ofString address).findSome? fun (name, _) =>
    match splitString ':' name with
    | _ :: p :: _ => some (p ++ ":")
    | _ => none).getD ""

/-- The character data among some nodes, joined. -/
def letters (l : List Tree) : Text :=
  l.flatMap fun
    | .leaf .characters v => v.plain
    | _ => []

/-- The characters in an element, without blanks around them. -/
def textOf (n : Tree) : Text := trim (fun p => isBlank p.val) (letters n.children)

/-- Details with what a text says under a name without its prefix. -/
def filled (details : Details) (stem : String) (t : Text) : Details :=
  match stem with
  | "id" => { details with id := some t }
  | "name" => { details with name := some t }
  | "version" => { details with version := some t }
  | "unpack" => { details with unpack := lower t.display = "true" }
  | _ => details

/-- Details with what one node says.  An instruction has no characters in it. -/
def Details.note (p : String) (details : Details) (n : Tree) : Details :=
  match n.nodeName? with
  | some name => filled details (replaceString p "" name) (textOf n)
  | none => details

def told (d : Document) : Except Defect Details := do
  let em := prefixFor d "http://www.mozilla.org/2004/em-rdf#"
  let rdf := prefixFor d "http://www.w3.org/1999/02/22-rdf-syntax-ns#"
  match d.root.elements.find? fun n => n.name? = some (rdf ++ "Description") with
  | none => throw .kind
  | some n => return n.children.foldl (Details.note em) {}

/-- What a written description says. -/
def details (bytes : Bytes) : Except Defect Details := do told (← Markup.read bytes)

end AddonBuilder.Install
