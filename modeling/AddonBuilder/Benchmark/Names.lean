import AddonBuilder.Benchmark.Basic
import AddonBuilder.Files.Ignored
import AddonBuilder.Record
import AddonBuilder.Version

/-!
# Benchmarks of versions, file names and records

Comparing versions, leaving out what is no source file, and looking up the fields of records.
-/

namespace AddonBuilder.Benchmark

/-- Two versions to compare, of one of seven kinds in turn; the first is never the later one. -/
def versionPair (i : Nat) : String × String :=
  let major := toString i
  cycle (major ++ ".0", major ++ ".0.0")
    [(major ++ ".0pre1", major ++ ".0pre2"), (major ++ ".0pre2", major ++ ".0"),
      (major ++ ".1pre", major ++ ".1pre0"),
      (major ++ ".0+", major ++ ".1pre1a"),
      (major ++ ".1pre1a", major ++ ".1pre1"),
      (major ++ ".1pre10a", major ++ ".1pre10")] i

def orderNumber : Ordering → Int
  | .lt => -1
  | .eq => 0
  | .gt => 1

/-- Versions compared in pairs: the sum of the orders, the number of pairs, and some parts of versions. -/
def compareVersions (pairs : Nat) : Except Defect Datum := do
  let orders ← (List.range pairs).mapM fun i =>
    let (a, b) := versionPair i
    match Version.compare? a b with
    | some order => .ok (orderNumber order)
    | none => .error .value
  let parts := ["", "1", "1pre", "1pre10", "1pre10a", "1+", "7beta3x"].filterMap Version.Part.parse?
  return .tuple [.int (orders.foldl (· + ·) 0), count orders.length, .list (parts.map fun p => .text p.shown)]

/-- The name of a file, of one of ten kinds in turn: sources for the most part, with hidden files and files of
editors among them. -/
def fileName (i : Nat) : String :=
  let number := toString i
  let source := "module" ++ number ++ ".js"
  cycle source [".hidden" ++ number, source, source, "copy" ++ number ++ ".js~", source, source,
    "edit" ++ number ++ ".js.swp", source, source] i

def dirName (i : Nat) : String :=
  cycle "lib" [".git", "test", ".svn", "data", ".hg", "doc"] i

/-- File names and directory names that are kept, two of the sources being left out by name. -/
def keepNames (files : Nat) : Datum :=
  let kept := ((List.range files).map fileName).filter (Files.keepsFile ["module3.js", "module6.js"])
  let dirs := ((List.range (max 8 (files / 20))).map dirName).filter Files.keepsDir
  .tuple [count kept.length, count dirs.length]

def fieldNumber (r : Record) (key : Text) : Int :=
  match r.field key with
  | .ok (.int n) => n
  | _ => 0

/-- The sum of the fields of a record with many of them and of a small one, and how long the small one is when
it is shown. -/
def readFields (keys : Nat) : Datum :=
  let names := (List.range keys).map fun i => ("key" ++ Text.ofNat i, i)
  let many : Record := ⟨names.map fun (name, i) => (name, .int i)⟩
  let few := (({} : Record).set "a" (.int 1)).set "b" (.int 2)
  .tuple [.int (names.foldl (fun n (name, _) => n + fieldNumber many name) (fieldNumber few "b")),
    count few.shown.length]

end AddonBuilder.Benchmark
