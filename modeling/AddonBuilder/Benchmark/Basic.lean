import AddonBuilder.Defect
import AddonBuilder.Json.Shown

/-!
# Benchmarks

A benchmark is a workload of a given size.
-/

namespace AddonBuilder

open Json

/-- A piece of work that is timed at three sizes. -/
structure Benchmark where
  name : String
  /-- What the size counts. -/
  parameter : String
  small : Nat
  usual : Nat
  large : Nat
  /-- The result of the work; a negative size counts as zero. -/
  work : Nat → Except Defect Datum

namespace Benchmark

/-- The sizes for which a benchmark is meant, each as a table of parameters. -/
def sizes (b : Benchmark) : List Members :=
  [b.small, b.usual, b.large].map fun (n : Nat) => [((b.parameter : Text), .int n)]

def sizeOf (b : Benchmark) : Members → Except Defect Nat
  | [] => .ok b.usual
  | [(key, .int n)] => if key = Text.ofString b.parameter then .ok n.toNat else .error .kind
  | _ => .error .kind

def run (b : Benchmark) (given : Members) : Except Defect Datum := do b.work (← b.sizeOf given)

def count (n : Nat) : Datum := .int n

/-- The member of a cycle at a position. -/
def cycle {α : Type} (first : α) (others : List α) (i : Nat) : α :=
  ((first :: others)[i % (others.length + 1)]?).getD first

end Benchmark

end AddonBuilder
