import AddonBuilder.Json.Value
import AddonBuilder.Number.Shortest
import AddonBuilder.Text.Quoted

/-!
# Writing JSON texts

`Value.chunks` writes a value under given `Options` as a sequence of chunks of text.
-/

namespace AddonBuilder.Json

/-- The options of a writer. -/
structure Options where
  /-- Whether members whose key has no text are left out. -/
  skipKeys : Bool := false
  /-- Whether everything outside ASCII is escaped. -/
  asciiOnly : Bool := true
  /-- Whether a container inside itself is detected. -/
  checkCircular : Bool := true
  /-- Whether numbers without a JSON form are written as constants. -/
  allowConstants : Bool := true
  sortKeys : Bool := false
  /-- The number of blanks by which a nesting level is indented. -/
  indent : Option Int := none
  itemSeparator : Text := Text.ofString ", "
  keySeparator : Text := Text.ofString ": "

/-- The escape of a code point below 0x10000 by its number. -/
def numericEscape (n : Nat) : Text := "\\u" ++ Text.hex 4 n

/-- The escape of a code point that every string form escapes. -/
def commonEscape? (p : CodePoint) : Option Text :=
  if p = 0x5C then some "\\\\"
  else if p = 0x22 then some "\\\""
  else if p = 0x08 then some "\\b"
  else if p = 0x0C then some "\\f"
  else if p = 0x0A then some "\\n"
  else if p = 0x0D then some "\\r"
  else if p = 0x09 then some "\\t"
  else if p.val < 0x20 then some (numericEscape p.val)
  else none

/-- A code point in a string that may hold any character. -/
def escapePoint (p : CodePoint) : Text := (commonEscape? p).getD [p]

/-- A code point in a string of ASCII only; above 0xFFFF it becomes a surrogate pair. -/
def escapePointAscii (p : CodePoint) : Text :=
  match commonEscape? p with
  | some t => t
  | none =>
    let n := p.val
    if n ≤ 0x7E then [p]
    else if n < 0x10000 then numericEscape n
    else
      let m := n - 0x10000
      numericEscape (0xD800 + m / 1024 % 1024) ++ numericEscape (0xDC00 + m % 1024)

/-- A string in quotes, with its escapes. -/
def stringText (asciiOnly : Bool) (t : Text) : Text :=
  0x22 :: (t.flatMap (if asciiOnly then escapePointAscii else escapePoint) ++ [0x22])

/-- Why a value cannot be written. -/
inductive EncodeError where
  | circular
  | unknownObject (shown : Text)
  | unknownKey (shown : Text)
  /-- A number without a JSON form. -/
  | outOfRange (x : Binary64)
  | undecodable
  | endless
deriving DecidableEq, Repr

/-- The message of an error; those without one come from reading bytes and from the nesting. -/
def EncodeError.message? : EncodeError → Option Text
  | circular => some "Circular reference detected"
  | unknownObject shown => some (shown ++ " is not JSON serializable")
  | unknownKey shown => some ("key " ++ shown ++ " is not a string")
  | outOfRange x => some ("Out of range float values are not JSON compliant: " ++ toString x)
  | undecodable | endless => none

/-- A number; those without a JSON form are written as constants where that is allowed. -/
def numberText (allowConstants : Bool) (x : Binary64) : Except EncodeError Text :=
  match x.view with
  | .finite .. => .ok (toString x)
  | .nan => special "NaN"
  | .infinite negative => special (if negative then "-Infinity" else "Infinity")
where
  /-- A constant, or the error that it is not allowed. -/
  special (word : Text) : Except EncodeError Text :=
    if allowConstants then .ok word else .error (.outOfRange x)

namespace Options

def newline (indent : Int) (level : Nat) : Text :=
  0x0A :: List.replicate (indent * level).toNat 0x20

/-- What stands after an opening bracket, between items and before the closing one, inside a
container at a level. -/
def opening (o : Options) (level : Nat) : List Text :=
  match o.indent with
  | none => []
  | some indent => [newline indent (level + 1)]

def between (o : Options) (level : Nat) : Text :=
  match o.indent with
  | none => o.itemSeparator
  | some indent => o.itemSeparator ++ newline indent (level + 1)

def closing (o : Options) (level : Nat) : List Text :=
  match o.indent with
  | none => []
  | some indent => [newline indent level]

end Options

/-- A container written between brackets: its parts on lines of their own if there is an indent. -/
def bracketed (o : Options) (level : Nat) (left right : CodePoint) (parts : List (List Text)) :
    List Text :=
  [left] :: (o.opening level ++ Text.join (o.between level) parts ++ o.closing level ++ [[right]])

/-- The members of an object in the order in which they are written. -/
def ordered {α : Type} (o : Options) (members : List (Text × α)) : List (Text × α) :=
  if o.sortKeys then members.mergeSort fun a b => Text.le a.1 b.1 else members

namespace Value

mutual

/-- A value as chunks of text, inside containers of which `level` are open. -/
def chunks (o : Options) (level : Nat) : Value → Except EncodeError (List Text)
  | null => .ok ["null"]
  | bool b => .ok [if b then "true" else "false"]
  | int n => .ok [Text.ofInt n]
  | float x => (numberText o.allowConstants x).map ([·])
  | text t => .ok [stringText o.asciiOnly t]
  | array items =>
    if items.isEmpty then .ok ["[]"]
    else do
      let parts ← itemChunks o (level + 1) items
      return bracketed o level 0x5B 0x5D parts
  | object members =>
    if members.isEmpty then .ok ["\x7b\x7d"]
    else do
      let parts ← (ordered o (memberChunks o (level + 1) members)).mapM Prod.snd
      return bracketed o level 0x7B 0x7D parts

def itemChunks (o : Options) (level : Nat) : List Value → Except EncodeError (List (List Text))
  | [] => .ok []
  | v :: rest => do
    let first ← chunks o level v
    return first :: (← itemChunks o level rest)

def memberChunks (o : Options) (level : Nat) :
    List (Text × Value) → List (Text × Except EncodeError (List Text))
  | [] => []
  | (k, v) :: rest =>
    (k, (chunks o level v).map fun c => stringText o.asciiOnly k :: o.keySeparator :: c) ::
      memberChunks o level rest

end

/-- The text of a value. -/
def encode (o : Options) (v : Value) : Except EncodeError Text := (chunks o 0 v).map List.flatten

end Value

end AddonBuilder.Json
