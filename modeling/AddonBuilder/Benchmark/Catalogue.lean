import AddonBuilder.Benchmark.Documents
import AddonBuilder.Benchmark.Names

/-!
# The benchmarks by name

All benchmarks, with what their sizes count and the sizes for which they are meant.
-/

namespace AddonBuilder.Benchmark

open Json

def all : List Benchmark := [
  ⟨"bunch_access", "n_keys", 500, 2000, 8000, fun n => .ok (readFields n)⟩,
  ⟨"filter_filenames", "n_files", 200, 800, 3000, fun n => .ok (keepNames n)⟩,
  ⟨"json_decode", "n_items", 30, 120, 400, fun n => .ok (readDocuments n)⟩,
  ⟨"json_encode_nested", "depth", 15, 60, 240, fun n => .ok (count (writeNested n))⟩,
  ⟨"json_encode_wide", "n_keys", 50, 200, 800, fun n => .ok (writeWide n)⟩,
  ⟨"json_scanstring", "n_strings", 100, 400, 1600, fun n => .ok (count (readStrings n))⟩,
  ⟨"prefs_serialise", "n_copies", 5, 20, 80, fun n => .ok (writeSettings n)⟩,
  ⟨"scanner_iterscan", "n_tokens", 500, 2000, 8000, readTokens⟩,
  ⟨"version_compare", "n_pairs", 80, 300, 1200, compareVersions⟩]

def named? (name : String) : Option Benchmark := all.find? fun b => b.name = name

def catalogue : Members :=
  all.map fun b => ((b.name : Text), .array (b.sizes.map Value.object))

end AddonBuilder.Benchmark
