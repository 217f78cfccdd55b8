import AddonBuilder.Assoc
import AddonBuilder.Text.Codec
import AddonBuilder.Text.Split

/-!
# New packages

The texts from which a new package starts, and the random identifier that it gets: a random number
of eighty bits in base sixty-four.
-/

namespace AddonBuilder.Package

/-- The description of a new package; the names stand in it as they are. -/
def newManifest (name title id : Text) : Text :=
  "\x7b\n  \"name\": \"" ++ name ++ "\",\n  \"title\": \"" ++ title ++ "\",\n  \"id\": \"" ++ id ++
    "\",\n  \"description\": \"a basic add-on\",\n  \"author\": \"\",\n  \"license\": \"MPL 2.0\",\n" ++
    "  \"version\": \"0.1\"\n\x7d\n"

def newManifest? (fields : Assoc Text Text) : Option Text := do
  return newManifest (← Assoc.get? fields "name") (← Assoc.get? fields "title")
    (← Assoc.get? fields "id")

def newTest : String := Text.joinStrings "\n" [ "var main = require(\"./main\");", "",
  "exports[\"test main\"] = function(assert) \x7b",
  "  assert.pass(\"Unit test running!\");",
  "\x7d;",
  "",
  "exports[\"test main async\"] = function(assert, done) \x7b",
  "  assert.pass(\"async Unit test running!\");",
  "  done();",
  "\x7d;",
  "",
  "require(\"sdk/test\").run(exports);",
  ""]

/-- The digit of base sixty-four with a value. -/
def digit64 (n : Nat) : Char :=
  if n < 26 then Char.ofNat (65 + n)
  else if n < 52 then Char.ofNat (97 + (n - 26))
  else if n < 62 then Char.ofNat (48 + (n - 52))
  else if n = 62 then 'A' else 'B'

/-- Bytes in base sixty-four, three of them in four digits, without padding. -/
def base64 : Bytes → List Char
  | [] => []
  | [a] =>
    let n := a.toNat * 16
    [digit64 (n / 64), digit64 (n % 64)]
  | [a, b] =>
    let n := (a.toNat * 256 + b.toNat) * 4
    [digit64 (n / 4096), digit64 (n / 64 % 64), digit64 (n % 64)]
  | a :: b :: c :: rest =>
    let n := (a.toNat * 256 + b.toNat) * 256 + c.toNat
    digit64 (n / 262144) :: digit64 (n / 4096 % 64) :: digit64 (n / 64 % 64) :: digit64 (n % 64) ::
      base64 rest

/-- The number of random bytes in an identifier. -/
def identifierSize : Nat := 10

/-- An identifier, which is made of random bytes. -/
def newIdentifier (random : Bytes) : String :=
  "jid1-" ++ String.ofList (base64 (random.take identifierSize))

end AddonBuilder.Package
