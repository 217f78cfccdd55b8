import AddonBuilder.Benchmark.Basic
import AddonBuilder.Application.Settings
import AddonBuilder.Json.Encoding
import AddonBuilder.Json.Scanner
import AddonBuilder.Package.Template

/-!
# Benchmarks of reading and writing JSON

The writing benchmarks build a document, deep or wide, and give the lengths of its texts.
-/

namespace AddonBuilder.Benchmark

open Json Value Text Binary64

def writtenLength (o : Options) (v : Value) : Nat :=
  match v.chunks o 0 with
  | .ok chunks => chunks.foldl (fun n c => n + c.length) 0
  | .error _ => 0

/-- A table with fields in the order in which they are named. -/
def table (fields : List (String × Value)) : Value :=
  .object (fields.map fun (k, v) => (ofString k, v))

/-- A node of a deep document: some fields that name its level, and the node inside it. -/
def node (level : Nat) (child : Value) : Value :=
  table [ ("level", .int level), ("items", .array (List.replicate 6 (.int level))),
    ("name", .text ("node " ++ Text.ofNat level)),
    ("note", str "a line inside another line"),
    ("child", child)]

def nest (depth : Nat) : Value := (List.range depth).foldr node .null

def sampler : Value :=
  table [
    ("texts", .array [str "plain", str "\"quoted\"", str "back\\slash", str "tab\tline\n",
      str "é☃"]),
    ("numbers", .array [.int 0, .int (-1), .int 1099511627776, .float (ofDecimal false 5 (-1)),
      .float (ofDecimal false 1 30)]),
    ("constants", .array [.bool true, .bool false, .null]),
    ("empty", .array [.array [], .object [], str ""]),
    ("nested", table [("a", .array [table [("b", .array [.int 1, .int 2])]])]),
    ("remark", str "all kinds of values at once")]

/-- A deep document with two widths of indentation, and a small one on a single line. -/
def writeNested (depth : Nat) : Nat :=
  let deep := nest depth
  writtenLength { indent := some 2 } deep + writtenLength { indent := some 4 } deep +
    writtenLength {} sampler

def longText (i : Nat) : Text :=
  cycle (replicate 11 "plain txt")
    [replicate 22 "tab\t" ++ "end", replicate 19 "☃", replicate 16 "\x01a",
      replicate 9 [0x1F600] ++ "face",
      replicate 16 "line\n" ++ "lines"] i

def wide (keys : Nat) : Value :=
  .object ((List.range keys).map fun i => ("entry" ++ Text.ofNat i, .text (longText i)))

/-- Values of several kinds, and the numbers of the first entries of a flat document. -/
def summary (keys : Nat) : Value :=
  .array ([str "the numbers of the first few entries", .bool true, .bool false, .null, .int 1099511627776] ++
    (List.range (min keys 8)).map fun (i : Nat) => .int i)

def extremes : Value :=
  .array [.array [], .object [], .float (infinity true), .float (infinity false), .float nan]

def writtenStart (t : Text) : Datum := .text ((stringText true t).take 8)

/-- A flat document on one line and on many, a summary, and how some strings start. -/
def writeWide (keys : Nat) : Datum :=
  let document := wide keys
  .tuple [ count (writtenLength {} document), count (writtenLength { indent := some 2 } document),
    count (writtenLength {} (summary keys)),
    writtenStart "☃☃",
    writtenStart "ctrl\x01",
    .text ((extremes.encode {}).toOption.getD [])]

/-- The number of items or members of a document that is written and read again. -/
def readBack (v : Value) : Nat :=
  match (v.encode {}).toOption.bind fun t => (decode t).toOption with
  | some (.array items) => items.length
  | some (.object members) => members.length
  | _ => 0

def readDocuments (items : Nat) : Datum :=
  let numbers := List.range items
  let named (i : Nat) : Text × Value := ("item" ++ Text.ofNat i, .text (longText i))
  .tuple [ count (readBack (.array (numbers.map fun (i : Nat) => .int i))),
    count (readBack (.array (numbers.map fun i => .float (ofDecimal false i (-1))))),
    count (readBack (.object (numbers.map named))),
    count (readBack (.array (numbers.map fun i => .object [named i])))]

/-- A short string as it stands in a JSON text after its opening quote, of one of five kinds in turn. -/
def shortString (i : Nat) : Text :=
  let number := Text.ofNat i
  cycle ("plain letters " ++ number ++ "\"")
    ["tab\\tand line\\n No. " ++ number ++ "\"",
      "escape \\u00e9 and \\u2603 and \\\\ " ++ number ++ "\"",
      "a pair \\ud83d\\ude00 and a " ++ number ++ "\"",
      "no number but a \\\"quote\\\" here\""] i

/-- The length of a string that is read from just after its opening quote, both quotes included. -/
def scannedLength (t : Text) : Nat :=
  match scanString {} ⟨1, t⟩ with
  | .ok (_, c) => c.pos
  | .error _ => 0

def readStrings (strings : Nat) : Nat :=
  scannedLength (replicate 167 "letter" ++ "\"") +
    (List.range strings).foldl (fun n i => n + scannedLength (shortString i)) 0

def token (i : Nat) : Text :=
  cycle "true" ["false", "null", "\"abc\"", "\"x\\ty\"", "NaN"] i

/-- Tokens without anything between them: how many there are, and the first and the last one with the position
after it. -/
def readTokens (number : Nat) : Except Defect Datum :=
  let source := ((List.range number).map token).flatten
  let found := (Scanner.tokens [TokenKind.constant, TokenKind.string] source 0).1
  let shown (t : Document × Int) : Datum := .tuple [Datum.ofValue t.1.value, .int t.2]
  match found.head?, found.getLast? with
  | some first, some last => .ok (.tuple [count found.length, shown first, shown last])
  | _, _ => .error .index

/-- The tables of preferences, written several times over, and the texts of a new package. -/
def writeSettings (copies : Nat) : Datum :=
  let tables := ["COMMON", "NO_CONNECTIONS", "FENNEC", "FIREFOX", "THUNDERBIRD", "TEST"].filterMap
    Application.Settings.named?
  let document : Value := .array (List.replicate copies (tables.map object)).flatten
  .tuple [ count (writtenLength {} document), count (writtenLength { indent := some 2 } document),
    count (Package.newIdentifier (List.replicate Package.identifierSize 0)).length,
    count (Package.newManifest "sample" "Sample" "s@jid").length,
    count Package.newTest.length]

end AddonBuilder.Benchmark
