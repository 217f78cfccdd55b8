/-!
# Words as a shell reads them

Blanks separate words.
-/

namespace AddonBuilder.Text

/-- What is left open at the end of a line. -/
inductive UnclosedWord where
  | quotation
  | escape
deriving DecidableEq, Repr

def UnclosedWord.message : UnclosedWord → String
  | quotation => "No closing quotation"
  | escape => "No escaped character"

/-- How the next character is read. -/
inductive WordState where
  | outside
  /-- After a backslash outside quotes. -/
  | escaped
  | single
  | double
  /-- After a backslash between double quotes. -/
  | doubleEscaped
deriving DecidableEq, Repr

/-- The words of a text.  `word` is the word that is being read, last character first, if there is
one. -/
def shellWordsFrom (state : WordState) (word : Option (List Char)) :
    List Char → Except UnclosedWord (List String)
  | [] =>
    match state with
    | .outside => .ok (word.map fun w => String.ofList w.reverse).toList
    | .escaped | .doubleEscaped => .error .escape
    | .single | .double => .error .quotation
  | c :: rest =>
    let started := word.getD []
    match state with
    | .outside =>
      if c = ' ' || c = '\t' || c = '\r' || c = '\n' then
        match word with
        | none => shellWordsFrom .outside none rest
        | some w => do return String.ofList w.reverse :: (← shellWordsFrom .outside none rest)
      else if c = '\'' then shellWordsFrom .single (some started) rest
      else if c = '"' then shellWordsFrom .double (some started) rest
      else if c = '\\' then shellWordsFrom .escaped word rest
      else shellWordsFrom .outside (some (c :: started)) rest
    | .escaped => shellWordsFrom .outside (some (c :: started)) rest
    | .single =>
      if c = '\'' then shellWordsFrom .outside (some started) rest
      else shellWordsFrom .single (some (c :: started)) rest
    | .double =>
      if c = '"' then shellWordsFrom .outside (some started) rest
      else if c = '\\' then shellWordsFrom .doubleEscaped (some started) rest
      else shellWordsFrom .double (some (c :: started)) rest
    | .doubleEscaped =>
      if c = '"' || c = '\\' then shellWordsFrom .double (some (c :: started)) rest
      else shellWordsFrom .double (some (c :: '\\' :: started)) rest

def shellWords (s : String) : Except UnclosedWord (List String) := shellWordsFrom .outside none s.toList

end AddonBuilder.Text
