import AddonBuilder.Markup.Tree
import AddonBuilder.Text.Integer

/-!
# Reading markup

A document is read if it is well-formed and every prefix is bound by an attribute `xmlns:…` around
it.
-/

namespace AddonBuilder.Markup

open Json String Text

/-- The letters that may stand in a document. -/
def isLegal (n : Nat) : Bool :=
  n = 0x9 || n = 0xA || n = 0xD || (0x20 ≤ n && n ≤ 0xD7FF) || (0xE000 ≤ n && n ≤ 0xFFFD) ||
    (0x10000 ≤ n && n ≤ 0x10FFFF)

def isSpace (c : Char) : Bool := c = ' ' || c = '\t' || c = '\n' || c = '\r'

/-- Ranges of letters beyond ASCII with which a name may start. -/
def nameStarts : List (Nat × Nat) := [
  (0xC0, 0xD6), (0xD8, 0xF6), (0xF8, 0x2FF), (0x370, 0x37D), (0x37F, 0x1FFF), (0x200C, 0x200D),
  (0x2070, 0x218F), (0x2C00, 0x2FEF), (0x3001, 0xD7FF), (0xF900, 0xFDCF), (0xFDF0, 0xFFFD)]

def startsName (c : Char) : Bool :=
  c.isAlpha || c = '_' || nameStarts.any fun (a, b) => a ≤ c.toNat && c.toNat ≤ b

def inName (c : Char) : Bool :=
  startsName c || c.isDigit || c = '-' || c = '.' || c.toNat = 0xB7 ||
    (0x300 ≤ c.toNat && c.toNat ≤ 0x36F)

def simpleName? (cs : List Char) : Option (List Char × List Char) :=
  match cs with
  | c :: _ => if startsName c then some (cs.takeWhile inName, cs.dropWhile inName) else none
  | [] => none

/-- A name, with the prefix before its colon. -/
structure QName where
  space : Option String
  stem : String
deriving DecidableEq, Repr

def QName.full (q : QName) : String :=
  match q.space with
  | some p => p ++ ":" ++ q.stem
  | none => q.stem

def qname? (cs : List Char) : Option (QName × List Char) := do
  let (first, rest) ← simpleName? cs
  match rest with
  | ':' :: rest =>
    let (second, rest) ← simpleName? rest
    if rest.head? = some ':' then none
    else some (⟨some (ofList first), ofList second⟩, rest)
  | _ => some (⟨none, ofList first⟩, rest)

def skipSpace (cs : List Char) : List Char := cs.dropWhile isSpace

/-- The letters that references by name stand for. -/
def entity? (name : String) : Option Char :=
  match name with
  | "lt" => some '<'
  | "gt" => some '>'
  | "amp" => some '&'
  | "quot" => some '"'
  | "apos" => some '\''
  | _ => none

def numbered? (base : Nat) (digits : List Char) : Option Char := do
  let n ← Text.digitsValue? base (digits.map Char.toNat)
  if isLegal n then some (Char.ofNat n) else none

/-- A reference after its ampersand.  If names may be declared elsewhere, an unknown one stands for
nothing. -/
def reference? (open_ : Bool) (cs : List Char) : Option (List Char × List Char) := do
  let body := cs.takeWhile (· ≠ ';')
  match cs.dropWhile (· ≠ ';') with
  | [] => none
  | _ :: rest =>
    match body with
    | '#' :: 'x' :: digits => do return ([← numbered? 16 digits], rest)
    | '#' :: digits => do return ([← numbered? 10 digits], rest)
    | name =>
      match entity? (ofList name) with
      | some c => some ([c], rest)
      | none =>
        match simpleName? name with
        | some (_, []) => if open_ then some ([], rest) else none
        | _ => none

/-- The value of an attribute after its opening quote; the number bounds the length of the text. -/
def attributeValue? (open_ : Bool) (quote : Char) :
    Nat → List Char → List Char → Option (List Char × List Char)
  | 0, _, _ => none
  | _ + 1, _, [] => none
  | n + 1, done, c :: rest =>
    if c = quote then some (done.reverse, rest)
    else if c = '<' then none
    else if c = '&' then do
      let (letters, rest) ← reference? open_ rest
      attributeValue? open_ quote n (letters.reverse ++ done) rest
    else attributeValue? open_ quote n ((if isSpace c then ' ' else c) :: done) rest

/-- The attributes of a tag, and whether the tag is closed at once. -/
def attrs? (open_ : Bool) :
    Nat → List (QName × List Char) → List Char →
      Option (List (QName × List Char) × Bool × List Char)
  | 0, _, _ => none
  | n + 1, done, cs =>
    let rest := skipSpace cs
    match rest with
    | '>' :: rest => some (done.reverse, false, rest)
    | '/' :: '>' :: rest => some (done.reverse, true, rest)
    | _ => do
      if !(cs.head?.any isSpace) then none
      let (name, rest) ← qname? rest
      match skipSpace rest with
      | '=' :: rest =>
        match skipSpace rest with
        | quote :: rest =>
          if quote = '"' || quote = '\'' then
            let (value, rest) ← attributeValue? open_ quote rest.length.succ [] rest
            attrs? open_ n ((name, value) :: done) rest
          else none
        | [] => none
      | _ => none

/-- The prefixes in force, each with its meaning.  The empty prefix is that of names without one. -/
abbrev Scope := List (String × String)

/-- The scope outside the root: one prefix is always there. -/
def outermost : Scope := [("xml", "xml")]

/-- The prefix that an attribute binds. -/
def bound? (q : QName) : Option String :=
  match q.space, q.stem with
  | none, "xmlns" => some ""
  | some "xmlns", p => some p
  | _, _ => none

/-- Whether a prefix may be bound to a meaning: the prefix that binds others may not, and only names
without a prefix can lose their meaning. -/
def mayBind (name meaning : String) : Bool :=
  name ≠ "xmlns" && (name.isEmpty || !meaning.isEmpty)

/-- The meaning of the prefix of a name; `none` if the prefix is not bound. -/
def meaning? (scope : Scope) (q : QName) : Option String :=
  match q.space with
  | none => some ""
  | some p => scope.lookup p

/-- The scope inside a tag, if its attributes are bound properly and no attribute is given twice. -/
def enter? (scope : Scope) (attrs : List (QName × List Char)) : Option Scope := do
  if !(attrs.map (·.1.full)).Nodup then none
  let bindings := attrs.filterMap fun (q, v) => (bound? q).map (·, ofList v)
  if !bindings.all (fun (p, m) => mayBind p m) then none
  let scope := bindings.reverse ++ scope
  let others := attrs.filter fun (q, _) => (bound? q).isNone
  let meanings ← others.mapM fun (q, _) => do return (← meaning? scope q, q.stem)
  if meanings.Nodup then some scope else none

/-- The attributes of an element: those that bind prefixes come first. -/
def orderAttributes (attrs : List (QName × List Char)) : List (String × Text) :=
  let (binding, others) := attrs.partition fun (q, _) => (bound? q).isSome
  (binding ++ others).map fun (q, v) => (q.full, ofString (ofList v))

def startTag? (open_ : Bool) (scope : Scope) (cs : List Char) :
    Option (QName × List (String × Text) × Scope × Bool × List Char) := do
  let (name, rest) ← qname? cs
  let (attrs, closed, rest) ← attrs? open_ rest.length.succ [] rest
  let scope ← enter? scope attrs
  let _ ← meaning? scope name
  if name.space = some "xmlns" then none
  else some (name, orderAttributes attrs, scope, closed, rest)

def endTag? (name : QName) (cs : List Char) : Option (List Char) := do
  let rest ← dropStart? name.full.toList cs
  match skipSpace rest with
  | '>' :: rest => some rest
  | _ => none

/-- A comment after its opening: it ends at the first two dashes. -/
def comment? (cs : List Char) : Option (List Char × List Char) := do
  let (body, rest) ← cut? "--".toList cs
  match rest with
  | '>' :: rest => some (body, rest)
  | _ => none

def instruction? (cs : List Char) : Option (Tree × List Char) := do
  let (target, rest) ← simpleName? cs
  if (ofList target).toLower = "xml" then none
  let (body, after) ← cut? "?>".toList rest
  if body.isEmpty || body.head?.any isSpace then
    some (.leaf (.instruction (ofList target)) (Value.str (ofList (skipSpace body))), after)
  else none

/-- A forest, the last node first, with letters added at its end. -/
def pushLetters (letters : List Char) (done : List Tree) : List Tree :=
  if letters.isEmpty then done
  else
    let t := ofString (ofList letters)
    match done with
    | .leaf .characters (.text before) :: rest => .ofText (before ++ t) :: rest
    | _ => .ofText t :: done

/-- The content of an element up to its end tag, of which the bracket and the slash are taken.  The
number bounds the length of the text. -/
def content? (open_ : Bool) : Nat → Scope → List Tree → List Char → Option (List Tree × List Char)
  | 0, _, _, _ => none
  | n + 1, scope, done, cs =>
    match cs with
    | [] => none
    | '<' :: '/' :: rest => some (done.reverse, rest)
    | '<' :: '!' :: '-' :: '-' :: rest => do
      let (body, rest) ← comment? rest
      content? open_ n scope (.leaf .comment (Value.str (ofList body)) :: done) rest
    | '<' :: '!' :: rest => do
      let (body, rest) ← cut? "]]>".toList (← dropStart? "[CDATA[".toList rest)
      let done := if body.isEmpty then done
        else .leaf .verbatim (Value.str (ofList body)) :: done
      content? open_ n scope done rest
    | '<' :: '?' :: rest => do
      let (node, rest) ← instruction? rest
      content? open_ n scope (node :: done) rest
    | '<' :: rest => do
      let (name, attrs, inner, closed, rest) ← startTag? open_ scope rest
      if closed then content? open_ n scope (.element name.full attrs [] none :: done) rest
      else
        let (children, rest) ← content? open_ n inner [] rest
        let rest ← endTag? name rest
        content? open_ n scope (.element name.full attrs children none :: done) rest
    | '&' :: rest => do
      let (letters, rest) ← reference? open_ rest
      content? open_ n scope (pushLetters letters done) rest
    | _ =>
      let letters := cs.takeWhile fun c => c ≠ '<' && c ≠ '&'
      if occurs "]]>".toList letters then none
      else content? open_ n scope (pushLetters letters done) (cs.drop letters.length)

/-- The root element after its bracket. -/
def root? (open_ : Bool) (cs : List Char) : Option (Tree × List Char) := do
  let (name, attrs, scope, closed, rest) ← startTag? open_ outermost cs
  if closed then some (.element name.full attrs [] none, rest)
  else
    let (children, rest) ← content? open_ rest.length.succ scope [] rest
    some (.element name.full attrs children none, ← endTag? name rest)

def quotedText? (cs : List Char) : Option (String × List Char) :=
  match cs with
  | quote :: rest =>
    if quote = '"' || quote = '\'' then
      match rest.dropWhile (· ≠ quote) with
      | _ :: after => some (ofList (rest.takeWhile (· ≠ quote)), after)
      | [] => none
    else none
  | [] => none

/-- A text that has to start with a blank, without the blanks at its start. -/
def someSpace? (cs : List Char) : Option (List Char) :=
  if cs.head?.any isSpace then some (skipSpace cs) else none

/-- The place where a document says its declarations are, as it is written. -/
def externalId? (cs : List Char) : Option (String × List Char) := do
  match Text.dropStart? "SYSTEM".toList cs with
  | some rest =>
    let (system, rest) ← quotedText? (← someSpace? rest)
    some ((if system.isEmpty then "" else "  SYSTEM '" ++ system ++ "'"), rest)
  | none =>
    match Text.dropStart? "PUBLIC".toList cs with
    | some rest =>
      let (known, rest) ← quotedText? (← someSpace? rest)
      let (system, rest) ← quotedText? (← someSpace? rest)
      some ("  PUBLIC '" ++ known ++ "'  '" ++ system ++ "'", rest)
    | none => some ("", cs)

/-- The declarations inside a document, which are kept as they stand. -/
def internalPart? (cs : List Char) : Option (String × List Char) :=
  match cs with
  | '[' :: rest =>
    match rest.dropWhile (· ≠ ']') with
    | _ :: after => some (" [" ++ ofList (rest.takeWhile (· ≠ ']')) ++ "]", skipSpace after)
    | [] => none
  | _ => some ("", cs)

/-- A declaration of the kind of document after its opening, and whether names may be declared
elsewhere. -/
def docType? (cs : List Char) : Option (Tree × Bool × List Char) := do
  let (name, rest) ← qname? (← someSpace? cs)
  let (outer, rest) ← externalId? (skipSpace rest)
  let (inner, rest) ← internalPart? (skipSpace rest)
  match rest with
  | '>' :: rest =>
    some (.leaf .declaration (Value.str (name.full ++ outer ++ inner)), !outer.isEmpty, rest)
  | _ => none

/-- What may stand around the root: comments, instructions and blanks. -/
def around? : Nat → List Tree → List Char → Option (List Tree × List Char)
  | 0, _, _ => none
  | n + 1, done, cs =>
    match skipSpace cs with
    | '<' :: '!' :: '-' :: '-' :: rest => do
      let (body, rest) ← comment? rest
      around? n (.leaf .comment (Value.str (ofList body)) :: done) rest
    | '<' :: '?' :: rest => do
      let (node, rest) ← instruction? rest
      around? n (node :: done) rest
    | rest => some (done.reverse, rest)

/-- A setting in the first line of a document: its name and its value. -/
def setting? (cs : List Char) : Option ((String × String) × List Char) := do
  let (name, rest) ← simpleName? (← someSpace? cs)
  match skipSpace rest with
  | '=' :: rest =>
    let (value, rest) ← quotedText? (skipSpace rest)
    some ((ofList name, value), rest)
  | _ => none

/-- The settings in the first line of a document. -/
def settings? : Nat → List (String × String) → List Char →
    Option (List (String × String) × List Char)
  | 0, _, _ => none
  | n + 1, done, cs =>
    match skipSpace cs with
    | '?' :: '>' :: rest => some (done.reverse, rest)
    | _ => do
      let (s, rest) ← setting? cs
      settings? n (s :: done) rest

/-- Whether the settings in the first line are allowed, in this order. -/
def areProper (l : List (String × String)) : Bool :=
  let rest := match l with
    | ("version", _) :: rest => some rest
    | _ => none
  let rest := rest.map fun l => match l with
    | ("encoding", _) :: rest => rest
    | l => l
  match rest with
  | some [] => true
  | some [("standalone", v)] => v = "yes" || v = "no"
  | _ => false

/-- The first line of a document, if there is one: the name of the encoding, and the rest. -/
def firstLine? (cs : List Char) : Option (Option String × List Char) :=
  match Text.dropStart? "<?xml".toList cs with
  | none => some (none, cs)
  | some rest =>
    if !(rest.head?.any isSpace) then some (none, cs)
    else do
      let (l, rest) ← settings? rest.length.succ [] rest
      if areProper l then some (l.lookup "encoding", rest) else none

def lineFeeds : List Char → List Char
  | '\r' :: '\n' :: rest => '\n' :: lineFeeds rest
  | '\r' :: rest => '\n' :: lineFeeds rest
  | c :: rest => c :: lineFeeds rest
  | [] => []

def readLetters? (cs : List Char) : Option Document := do
  if !cs.all fun c => isLegal c.toNat then none
  let (_, rest) ← firstLine? (lineFeeds cs)
  let (early, rest) ← around? rest.length.succ [] rest
  let (declared, open_, rest) ← match Text.dropStart? "<!DOCTYPE".toList rest with
    | none => some ([], false, rest)
    | some rest => do
      let (node, open_, rest) ← docType? rest
      let (more, rest) ← around? rest.length.succ [] rest
      some (node :: more, open_, rest)
  match rest with
  | '<' :: rest =>
    let (root, rest) ← root? open_ rest
    let (after, rest) ← around? rest.length.succ [] rest
    if rest.isEmpty then some { before := early ++ declared, root, after } else none
  | _ => none

/-- The encoding that bytes are written in: what their first line says, if it is one of the known
ones. -/
def codecOf? (bytes : Bytes) : Option Codec := do
  let ascii := (bytes.takeWhile (· ≠ 0x3E) ++ [0x3E]).map fun (b : UInt8) => Char.ofNat b.toNat
  let (name, _) ← firstLine? ascii
  match name.map toLower with
  | none | some "utf-8" => some .utf8
  | some "iso-8859-1" | some "latin-1" => some .latin1
  | some "us-ascii" | some "ascii" => some .ascii
  | _ => none

def withoutMark : Bytes → Bytes
  | 0xEF :: 0xBB :: 0xBF :: rest => rest
  | content => content

/-- Reads a document in the encoding it declares. -/
def read (bytes : Bytes) : Except Defect Document :=
  let bytes := withoutMark bytes
  match (do
    let t ← (← codecOf? bytes).decode? bytes
    readLetters? (← t.toString?).toList) with
  | some d => .ok d
  | none => .error .markup

end AddonBuilder.Markup
