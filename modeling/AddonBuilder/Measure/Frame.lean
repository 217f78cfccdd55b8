import AddonBuilder.Files.Path

/-!
# Where time is spent

A profile says how much time was spent in each file.
-/

namespace AddonBuilder.Measure.Frame

def project : String := "/repo"

def benchmarks : String := "/repo/microbench.py"

def foreignDirs : List String :=
  ["site-packages", "dist-packages", ".venv", "venv", ".tox", "node_modules", "vendor", "vendored", "_vendor",
    "third_party", "thirdparty", "build", "dist", ".eggs"]

def isForeign (name : String) : Bool := foreignDirs.contains name || Text.endsWith name ".egg-info"

def resolved (path : String) : String := Path.absolute project path

def isOwn (path : String) : Bool :=
  if path.isEmpty || Text.beginsWith path "~" || Text.beginsWith path "<" then false
  else
    let place := resolved path
    match Text.afterStart? place (project ++ "/") with
    | none => false
    | some below =>
      place ≠ benchmarks && !Text.beginsWith (Path.base place) "_pti_" &&
        !(Path.names (Path.parent below)).any isForeign

def isCompiled (path : String) : Bool :=
  path = "~" || Text.endsWith path ".so" || Text.endsWith path ".pyd"

def label (path : String) : String :=
  if path = "~" then "builtins"
  else if Text.beginsWith path "<" then path
  else if resolved path = benchmarks then "<run() body>"
  else
    let name := Path.base path
    let name := if name.isEmpty then path else name
    (Text.beforeEnd? name ".py").getD name

end AddonBuilder.Measure.Frame
