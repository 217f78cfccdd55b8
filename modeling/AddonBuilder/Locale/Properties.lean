import AddonBuilder.Locale.Plural
import AddonBuilder.Text.Codec
import AddonBuilder.Text.Integer
import AddonBuilder.Text.Quoted

/-!
# Locale files

A locale file has one text a line, as `key = value` or `key: value`.
-/

namespace AddonBuilder.Locale

open Json Text

/-- Why a file of texts is refused. -/
inductive Fault where
  /-- The line has no key or no separator. -/
  | line (number : Nat) (line : Text)
  /-- The key is white space. -/
  | key (number : Nat) (line : Text)
  /-- The file ends inside a continued value. -/
  | unfinished (number : Nat) (line : Text)
  /-- A plural form has no general form. -/
  | plural (missing : MissingOther)
  /-- A code point is not written as it should be. -/
  | escape
  /-- The file is not in UTF-8. -/
  | encoding
deriving DecidableEq, Repr

/-- The message about a fault in a file; a fault of bytes or escapes has none. -/
def Fault.message? (file : Text) : Fault → Option Text
  | line number shown =>
    some (invalid ++ "Line " ++ ofNat number ++ " is incorrect:\n" ++ shown)
  | key number shown =>
    some (invalid ++ "Key is invalid on line " ++ ofNat number ++ " is incorrect:\n" ++ shown)
  | unfinished number shown =>
    some (invalid ++ "Unexpected EOF in multiline sequence at line " ++ ofNat number ++ ":\n" ++
      shown)
  | plural missing =>
    some ("Following locale file is not a valid UTF-8 file: " ++ file ++
      "\nThis plural form doesn't have a matching `" ++ missing.main ++ "[other]` form:\n" ++
      missing.key ++ "\nYou have to defined following key:\n" ++ missing.main)
  | escape | encoding => none
where
  /-- The first line of most messages. -/
  invalid : Text := "Following locale file is not a valid .properties file: " ++ file ++ "\n"

def isSpace (p : CodePoint) : Bool := isAsciiBlank p.val

/-- White space of Unicode. -/
def isWide (p : CodePoint) : Bool := isBlank p.val

def isSkipped (line : Text) : Bool :=
  match line.dropWhile isSpace with
  | [] => true
  | c :: _ => c = 0x23

/-- The units of a value in which every code point above 0xFF is written as an escape. -/
def escapeUnits (t : Text) : Text :=
  t.flatMap fun p =>
    if p.val < 0x100 then [p]
    else if p.val < 0x10000 then "\\u" ++ hex 4 p.val
    else "\\U" ++ hex 8 p.val

/-- The code point given by exactly `width` hexadecimal digits at the start of a text, and the
rest. -/
def hexPoint? (width : Nat) (t : Text) : Option (CodePoint × Text) := do
  let digits := t.take width
  if digits.length < width then none
  else
    let n ← digitsValue? 16 (digits.map Fin.val)
    return (← CodePoint.ofNat? n, t.drop width)

theorem length_of_hexPoint? {width : Nat} {t rest : Text} {p : CodePoint}
    (h : hexPoint? width t = some (p, rest)) : rest.length ≤ t.length := by
  simp only [hexPoint?] at h
  split at h
  · simp at h
  · simp only [bind, Option.bind_eq_some_iff, pure] at h
    obtain ⟨n, _, q, _, he⟩ := h
    cases he
    simp

/-- Reads the escapes of a value.  A backslash takes the next unit with it, so that an escaped
backslash does not begin an escape. -/
def readEscapes? (t : Text) : Option Text :=
  match t with
  | [] => some []
  | [c] => some [c]
  | c :: d :: rest =>
    if c ≠ 0x5C then (readEscapes? (d :: rest)).map (c :: ·)
    else if d = 0x75 ∨ d = 0x55 then
      match _h : hexPoint? (if d = 0x75 then 4 else 8) rest with
      | some (p, after) => (readEscapes? after).map (p :: ·)
      | none => none
    else (readEscapes? rest).map fun t => c :: d :: t
termination_by t.length
decreasing_by
  · simp
  · have := length_of_hexPoint? _h
    simp only [List.length_cons]
    omega
  · simp only [List.length_cons]
    omega

/-- Carries out the escapes of a value. -/
def unescape? (t : Text) : Option Text := readEscapes? (escapeUnits t)

def isSeparator (p : CodePoint) : Bool := p = 0x3D || p = 0x3A

/-- Key and value of a line, as they are written: without white space before the key, after it,
before the value and after it. -/
def keyValue? (line : Text) : Option (Text × Text) :=
  let body := line.dropWhile isSpace
  let key := body.takeWhile (!isSeparator ·)
  match body.dropWhile (!isSeparator ·) with
  | [] => none
  | _ :: after =>
    if key.isEmpty && body.length = line.length then none
    else
      let value := (after.dropWhile isSpace).takeWhile (· ≠ 0x0A)
      some (trimEnd isWide key, trimEnd isWide value)

/-- Whether a value goes on in the next line. -/
def isContinued (t : Text) : Bool := t.getLast? == some 0x5C

/-- Reads the continuations of a value from the lines after the first continuation `line`.  Gives
the whole value, the number of further lines read and the lines left. -/
def continueValue (number : Nat) (value line : Text) :
    List Text → Except Fault (Text × Nat × List Text)
  | [] =>
    if isContinued line then .error (.unfinished number line)
    else .ok (value ++ trim isWide line, number, [])
  | next :: rest =>
    if isContinued line then
      continueValue (number + 1) (value ++ line.dropLast.dropWhile isWide) next rest
    else .ok (value ++ trim isWide line, number, next :: rest)

theorem length_of_continueValue {number n : Nat} {value line v : Text} {lines rest : List Text}
    (h : continueValue number value line lines = .ok (v, n, rest)) :
    rest.length ≤ lines.length := by
  induction lines generalizing number value line with
  | nil =>
    simp only [continueValue] at h
    split at h
    · cases h
    · cases h; simp
  | cons next more ih =>
    simp only [continueValue] at h
    split at h
    · exact Nat.le_succ_of_le (ih h)
    · cases h; simp

/-- Reads lines, of which the first has the given number, into a table. -/
def parseFrom (number : Nat) (table : Members) (lines : List Text) : Except Fault Members :=
  match lines with
  | [] => .ok table
  | line :: rest =>
    if isSkipped line then parseFrom number table rest
    else match keyValue? line with
      | none => .error (.line number line)
      | some (key, raw) =>
        match unescape? raw with
        | none => .error .escape
        | some value =>
          if key.isEmpty then .error (.key number line)
          else if isContinued value then
            match rest with
            | [] => .error (.unfinished number line)
            | first :: more =>
              match h : continueValue number value.dropLast (trim isWide first) more with
              | .error e => .error e
              | .ok (value, number, left) =>
                parseFrom (number + 1) (Assoc.insert table key (.text value)) left
          else parseFrom (number + 1) (Assoc.insert table key (.text value)) rest
termination_by lines.length
decreasing_by
  all_goals simp_wf
  · have := length_of_continueValue h
    simp_all
    omega

/-- Reads a file of texts. -/
def parse (lines : List Text) : Except Fault Members := do
  let table ← parseFrom 1 [] lines
  (normalisePlurals table).mapError .plural

def parseBytes (bytes : Bytes) : Except Fault Members :=
  match Codec.utf8.decode? bytes with
  | none => .error .encoding
  | some t => parse (linesWithEnds Fin.val t)

end AddonBuilder.Locale
