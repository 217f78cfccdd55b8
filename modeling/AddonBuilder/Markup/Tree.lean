import AddonBuilder.Defect
import AddonBuilder.Json.Shown
import AddonBuilder.Text.Codec

/-!
# Markup documents

A document is an element with what stands before and after it.
-/

namespace AddonBuilder.Markup

open Json

/-- What a node without children is. -/
inductive LeafKind where
  | characters
  | verbatim
  | comment
  | instruction (target : String)
  | declaration
deriving DecidableEq, Repr

/-- A node of a document.  An element may have been given a value, which is never written. -/
inductive Tree where
  | leaf (kind : LeafKind) (content : Value)
  | element (name : String) (attrs : List (String × Text)) (children : List Tree)
      (value : Option Value)
deriving Inhabited, Repr

/-- The root element and what stands around it. -/
structure Document where
  before : List Tree := []
  root : Tree
  after : List Tree := []
deriving Inhabited, Repr

namespace Tree

def ofText (t : Text) : Tree := leaf .characters (.text t)

def tag (name : String) (children : List Tree) : Tree := element name [] children none

def children : Tree → List Tree
  | element _ _ children _ => children
  | leaf .. => []

/-- The attributes of an element. -/
def attrs : Tree → List (String × Text)
  | element _ attrs _ _ => attrs
  | leaf .. => []

/-- The name of an element. -/
def name? : Tree → Option String
  | element name _ _ _ => some name
  | leaf .. => none

/-- The name that a node goes by: an instruction goes by its target. -/
def nodeName? : Tree → Option String
  | element name _ _ _ => some name
  | leaf (.instruction target) _ => some target
  | leaf .. => none

/-- An attribute, empty where it is not given. -/
def attributeText (n : Tree) (name : String) : Text := (n.attrs.lookup name).getD []

/-- Whether a name is asked for; a star asks for all. -/
def isAsked (asked name : String) : Bool := asked = "*" || asked = name

mutual

/-- The elements of a tree, from the top. -/
def elements : Tree → List Tree
  | leaf .. => []
  | element name attrs children value =>
    element name attrs children value :: elementsOf children

def elementsOf : List Tree → List Tree
  | [] => []
  | n :: rest => elements n ++ elementsOf rest

end

def named (n : Tree) (name : String) : List Tree :=
  (elementsOf n.children).filter fun e => e.name?.any (isAsked name)

mutual

/-- A node in which the first element of a name is changed, itself included. -/
def changeFirst? (asked : String) (f : Tree → Tree) : Tree → Option Tree
  | leaf .. => none
  | element name attrs children value =>
    if isAsked asked name then some (f (element name attrs children value))
    else (changeFirstOf? asked f children).map fun c => element name attrs c value

def changeFirstOf? (asked : String) (f : Tree → Tree) : List Tree → Option (List Tree)
  | [] => none
  | n :: rest =>
    match changeFirst? asked f n with
    | some n => some (n :: rest)
    | none => (changeFirstOf? asked f rest).map (n :: ·)

end

mutual

/-- A node without the elements of a name below it. -/
def without (asked : String) : Tree → Tree
  | leaf kind content => leaf kind content
  | element name attrs children value =>
    element name attrs (withoutOf asked children) value

def withoutOf (asked : String) : List Tree → List Tree
  | [] => []
  | n :: rest =>
    if n.name?.any (isAsked asked) then withoutOf asked rest
    else without asked n :: withoutOf asked rest

end

def withChildren (children : List Tree) : Tree → Tree
  | element name attrs _ value => element name attrs children value
  | n => n

def append (child n : Tree) : Tree := n.withChildren (n.children ++ [child])

/-- What a node holds by itself: the content of a leaf, and nothing for an element that was given no
value. -/
def ownValue : Tree → Value
  | leaf _ content => content
  | element _ _ _ value => value.getD .null

def withValue (v : Value) : Tree → Tree
  | leaf kind _ => leaf kind v
  | element name attrs children _ => element name attrs children (some v)

end Tree

/-- A letter as it is written in text and in attributes. -/
def escaped (p : CodePoint) : Text :=
  if p = 0x26 then "&amp;" else if p = 0x3C then "&lt;" else if p = 0x22 then "&quot;"
  else if p = 0x3E then "&gt;" else [p]

def escapeAll (t : Text) : Text := t.flatMap escaped

def refusing (pattern : String) : Value → Except Defect Text
  | .text t => if Text.occurs (Text.ofString pattern) t then .error .value else .ok t
  | _ => .error .kind

def writeLeaf (content : Value) : LeafKind → Except Defect Text
  | .characters => .ok (escapeAll content.plain)
  | .verbatim => do return "<![CDATA[" ++ (← refusing "]]>" content) ++ "]]>"
  | .comment => do return "<!--" ++ (← refusing "--" content) ++ "-->"
  | .instruction target => .ok ("<?" ++ Text.ofString target ++ " " ++ content.plain ++ "?>")
  | .declaration => .ok ("<!DOCTYPE " ++ content.plain ++ ">")

def writeAttributes (l : List (String × Text)) : Text :=
  l.flatMap fun (name, value) => " " ++ Text.ofString name ++ "=\"" ++ escapeAll value ++ "\""

mutual

def write : Tree → Except Defect Text
  | .leaf kind content => writeLeaf content kind
  | .element name attrs children _ => do
    let start := "<" ++ Text.ofString name ++ writeAttributes attrs
    if children.isEmpty then return start ++ "/>"
    return start ++ ">" ++ (← writeAll children) ++ "</" ++ Text.ofString name ++ ">"

def writeAll : List Tree → Except Defect Text
  | [] => .ok []
  | n :: rest => do
    let head ← write n
    return head ++ (← writeAll rest)

end

namespace Document

/-- The first line of every written document, without a line end. -/
def declaration : Text := "<?xml version=\"1.0\" encoding=\"utf-8\"?>"

def write (d : Document) : Except Defect Text := do
  return declaration ++ (← writeAll (d.before ++ [d.root] ++ d.after))

/-- A document as it is stored. -/
def bytes (d : Document) : Except Defect Bytes := do
  match Codec.encodeUtf8? (← d.write) with
  | some b => return b
  | none => throw .unencodable

end Document

end AddonBuilder.Markup
