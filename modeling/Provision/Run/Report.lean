import Provision.Json.Printer
import Provision.Outcome.Codec
import Provision.RunLog
import Provision.RunLog.Codec

/-!
# Reports

What the operator is told of a run or a rollback.

* `RunReport.ofLog`: the report of a log.
* `RunReport.toJson`: the report as JSON.
-/

namespace Provision

/-- What the operator is told of a run or a rollback. -/
structure RunReport where
  runId : String
  status : RunStatus
  failedStep : Option String
  failure : Option Failure
  /-- No rollback of this invocation failed. -/
  rollbackClean : Bool
  trail : List String
deriving DecidableEq, Inhabited, Repr

namespace RunReport

/-- The report of a log. -/
def ofLog (log : RunLog) (rollbackClean : Bool) : RunReport where
  runId := log.runId
  status := log.status
  failedStep := log.failure.map (·.step)
  failure := log.failure.map (·.failure)
  rollbackClean
  trail := log.trail

/-- The report as JSON. -/
def toJson (r : RunReport) : Json :=
  .object [("run_id", .string r.runId), ("status", r.status.toJson),
    ("failed_step", .orNull (r.failedStep.map .string)),
    ("failure", .orNull (r.failure.map Failure.toJson)),
    ("rollback_clean", .bool r.rollbackClean), ("trail", .strings r.trail)]

end RunReport

end Provision
