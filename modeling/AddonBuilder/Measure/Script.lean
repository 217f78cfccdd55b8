import AddonBuilder.Measure.LineCoverage
import AddonBuilder.Measure.Round
import AddonBuilder.Measure.SelfCheck
import AddonBuilder.Measure.TimeShare

/-!
# The measuring tools by name

A tool is run for what is recorded of a run, and its result is a table.
-/

namespace AddonBuilder.Measure

open Json

def script (name : String) (run : Value) : Value :=
  match name with
  | "repotime" => fields (outcome (TimeShare.tool run).run)
  | "semcheck" => fields (outcome (SelfCheck.tool run).run)
  | _ =>
    let result := (LineCoverage.tool run).run
    let files := result.2.files.map fun (path, t) => (path, Value.text t)
    fields (outcome result ++ [("files", fields files)])

/-- The results of rounds that follow each other, from the log before the first. -/
def rounds (log : Option Text) : List Value → List Value
  | [] => []
  | r :: rest =>
    let result := (Round.tool log r).run
    match Assoc.get? result.2.files Round.logFile with
    | some t =>
      fields (outcome result ++ [("checkpoint", .text t)]) :: rounds (some (log.getD [] ++ t)) rest
    | none => fields (outcome result) :: rounds log rest

end AddonBuilder.Measure
