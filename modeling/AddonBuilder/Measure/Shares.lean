import AddonBuilder.Measure.Recording

/-!
# The shares of a round

A round reads the shares of time that the benchmarks spend in the project, and marks those that are too small.
-/

namespace AddonBuilder.Measure

open Json

/-- The shares of time of a round, and where else time was spent. -/
structure Shares where
  percents : Assoc Text Binary64 := []
  places : Members := []

/-- Where a share counts as too small. -/
def leastShare : Binary64 := Binary64.ofInt 45

def Shares.valid (s : Shares) : List Binary64 :=
  (Assoc.values s.percents).filter fun x => (Binary64.zero false).le x

def Shares.below (s : Shares) : Nat := (s.valid.filter (·.lt leastShare)).length

/-- How many shares are too small, if there are any shares. -/
def Shares.below? (s : Shares) : Option Nat := if s.valid.isEmpty then none else some s.below

def measureShares (r : Recorded) : Task Shares := do
  let path := "/repo/_pti_repotime.py"
  if !hasTool r path then return {}
  let result ← Task.caught do
    let output ← start r "repotime" path 120
    Task.complain output.complaints
    let m := (← Task.ofExcept (lastObject output.printed)).getD []
    let shares ← Task.ofExcept (Field.tableOrEmpty (Assoc.get? m "repo_time_pct"))
    let percents ← Task.ofExcept (shares.mapM fun (name, v) => do return (name, ← Field.toFloat v))
    let places ← Task.ofExcept (Field.tableOrEmpty (Assoc.get? m "hot_ext"))
    return Shares.mk percents places
  match result with
  | .ok shares => return shares
  | .error f => do
    complainOf "repotime" f
    return {}

def placeShown? : Value → Option Text
  | .array [x, label] =>
    let percent : Text := ((Field.toFloat x).toOption.map fun x => x.fixed 0).getD ""
    some (label.plain ++ " " ++ percent ++ "%")
  | _ => none

/-- Where else time was spent, as it follows a share. -/
def placesShown (v : Option Value) : Text :=
  match v with
  | some (.array l) =>
    match l.filterMap placeShown? with
    | [] => []
    | places => " (hot: " ++ Text.intercalate " " places ++ ")"
  | _ => []

def Shares.print (s : Shares) : Task Unit := do
  if !s.percents.isEmpty then
    Task.print "\nrepo_time (target 50%; * = below 45%):"
    for (name, x) in s.percents.mergeSort fun a b => !b.2.lt a.2 do
      let failed := x.lt (Binary64.zero false)
      let small := !failed && x.lt leastShare
      let shown := if failed then Binary64.zero false else x
      Task.print ("  " ++ (if small then "*" else " ") ++ " " ++ padRight 32 name ++ " " ++
        padLeft 5 (shown.fixed 1) ++ "%" ++
        (if failed then ("  <error>" : Text)
          else if small then placesShown (Assoc.get? s.places name) else []))

end AddonBuilder.Measure
