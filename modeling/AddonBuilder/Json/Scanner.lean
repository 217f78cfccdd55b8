import AddonBuilder.Json.Parser

/-!
# Scanning by a lexicon

A lexicon is a list of token kinds.
-/

namespace AddonBuilder.Json

/-- A match of a token kind: its length, and a token with the position of the next scan. -/
structure Match (α : Type) where
  length : Nat
  /-- The token, and the next position if it is not the end of the match. -/
  token : Except ParseError (α × Option Int)

/-- A kind of token: what it makes of a place in a source. -/
structure TokenKind (α : Type) where
  matchAt : Cursor → Option (Match α)

namespace Scanner

/-- The first kind that matches at a place; after an empty match only a match of at least one unit
counts. -/
def firstMatch {α : Type} (lexicon : List (TokenKind α)) (mustAdvance : Bool) (c : Cursor) :
    Option (Match α) :=
  lexicon.findSome? fun kind =>
    (kind.matchAt c).bind fun m => if mustAdvance && m.length = 0 then none else some m

/-- The tokens from `reached` on, and the error that ended the scan if one did.  The scanner stands
at `at_`, which differs from `reached` only when `reached` is outside the source.  `fuel` bounds the
number of tokens. -/
def tokensFrom {α : Type} (lexicon : List (TokenKind α)) (source : Text) :
    Nat → Int → Nat → Bool → List (α × Int) × Option ParseError
  | 0, _, _, _ => ([], none)
  | fuel + 1, reached, at_, mustAdvance =>
    match firstMatch lexicon mustAdvance (cursorAt source at_) with
    | none => ([], none)
    | some m =>
      let stop := at_ + m.length
      if (stop : Int) = reached then ([], none)
      else match m.token with
        | .error e => ([], some e)
        | .ok (value, next) =>
          let jump := next.filter (· ≠ (stop : Int))
          let reached := jump.getD stop
          let (rest, failure) := match jump with
            | some n => tokensFrom lexicon source fuel n (cursorAt source n).pos false
            | none => tokensFrom lexicon source fuel stop stop (m.length = 0)
          ((value, reached) :: rest, failure)

/-- The tokens from a place on, and why there are no more if one cannot be read. -/
def tokens {α : Type} (lexicon : List (TokenKind α)) (source : Text) (index : Int) :
    List (α × Int) × Option ParseError :=
  tokensFrom lexicon source (2 * source.length + 2) index (cursorAt source index).pos false

end Scanner

namespace TokenKind

/-- A document as a token, restricted to documents that `accepts` allows by their first units. -/
def document (mode : Mode) (accepts : Text → Bool) : TokenKind Document where
  matchAt c :=
    if !accepts c.rest then none
    else match Parser.valueAt mode c with
      | .ok none => none
      | .ok (some (d, next)) =>
        let length := match d with
          | .constant k => k.word.length
          | .integer lexeme | .real lexeme => lexeme.length
          | _ => 1
        some ⟨length, .ok (d, some next.pos)⟩
      | .error e => some ⟨1, .error e⟩

def opensWith (u : CodePoint) (t : Text) : Bool := t.head? = some u

/-- The kinds of documents: objects, arrays, strings, constants and numbers. -/
def object : TokenKind Document := document {} (opensWith 0x7B)
def array : TokenKind Document := document {} (opensWith 0x5B)
def string : TokenKind Document := document {} (opensWith 0x22)
def constant : TokenKind Document := document {} fun t => (Parser.constant? t).isSome
def number : TokenKind Document := document {} fun t => (Parser.number? t).isSome

/-- A run of code points of a class; a run of none is allowed if `allowEmpty`. -/
def run (allowEmpty : Bool) (p : CodePoint → Bool) : TokenKind Text where
  matchAt c :=
    let found := c.rest.takeWhile p
    if found.isEmpty && !allowEmpty then none else some ⟨found.length, .ok (found, none)⟩

/-- A fixed text, after which scanning goes on `offset` units from its end. -/
def literal (t : Text) (offset : Int) : TokenKind Text where
  matchAt c :=
    if t.isPrefixOf c.rest then
      some ⟨t.length, .ok (t, some (c.pos + t.length + offset))⟩
    else none

def map {α β : Type} (f : α → β) (k : TokenKind α) : TokenKind β where
  matchAt c := (k.matchAt c).map fun m => ⟨m.length, m.token.map fun (a, next) => (f a, next)⟩

end TokenKind

end AddonBuilder.Json
