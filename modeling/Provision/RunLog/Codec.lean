import Provision.Action.Codec
import Provision.Json.Printer
import Provision.Outcome.Codec
import Provision.RunLog

/-!
# Run logs as JSON

A run log is stored as one object; what is unset is left out, and members it
does not know are skipped.

* `RunLog.toJson`, `RunLog.render`: the stored form.
* `RunLog.ofJson`, `RunLog.parse`: the log from it.
-/

namespace Provision

open Json

/-- A status as JSON. -/
def RunStatus.toJson : RunStatus → Json
  | notStarted => .string "not_started"
  | running => .string "running"
  | completed => .string "completed"
  | aborted cause => .object [("aborted", .string cause.name)]

/-- The statuses that say no more than their name. -/
def RunStatus.plain : List (String × RunStatus) :=
  [("not_started", notStarted), ("running", running), ("completed", completed)]

/-- A status from JSON. -/
def RunStatus.ofJson : Json → Except Fault RunStatus
  | .object [("aborted", cause)] => aborted <$> choice false AbortCause.byName cause
  | j => choice false RunStatus.plain j

/-- A step in flight as JSON. -/
def InFlight.toJson (f : InFlight) : Json :=
  .object [("step", .string f.step), ("action", f.action.toJson), ("since", .string f.since)]

/-- A step in flight from JSON. -/
def InFlight.ofJson (j : Json) : Except Fault InFlight := do
  let r ← record ["step", "action", "since"] j
  return {
    step := ← required "step" asString r
    action := ← required "action" (StepAction.ofJson false) r
    since := ← required "since" asString r }

/-- The step that stopped a run as JSON. -/
def StepFailure.toJson (f : StepFailure) : Json :=
  .object [("step", .string f.step), ("failure", f.failure.toJson)]

/-- The step that stopped a run from JSON. -/
def StepFailure.ofJson (j : Json) : Except Fault StepFailure := do
  let r ← record ["step", "failure"] j
  return {
    step := ← required "step" asString r
    failure := ← required "failure" (Failure.ofJson false) r }

/-- An entry as JSON. -/
def LogEntry.toJson (e : LogEntry) : Json :=
  .object <| [("step", .string e.step), ("result", e.result.toJson)] ++
    member? "action" (e.action.map StepAction.toJson) ++ [("at", .string e.recorded)]

/-- An entry from JSON. -/
def LogEntry.ofJson (j : Json) : Except Fault LogEntry := do
  let r ← record ["step", "result", "action", "at"] j
  return {
    step := ← required "step" asString r
    result := ← required "result" StepResult.ofJson r
    action := ← optional "action" (StepAction.ofJson false) r
    recorded := ← required "at" asString r }

namespace RunLog

/-- A run log as JSON. -/
def toJson (log : RunLog) : Json :=
  .object <| [("run_id", .string log.runId), ("started_at", .string log.startedAt)] ++
    member? "finished_at" (log.finishedAt.map .string) ++
    [("status", log.status.toJson), ("plan", .strings log.plan)] ++
    member? "in_flight" (log.inFlight.map InFlight.toJson) ++
    member? "failure" (log.failure.map StepFailure.toJson) ++
    [("entries", .array (log.entries.map LogEntry.toJson))]

/-- A run log from JSON. -/
def ofJson (j : Json) : Except Fault RunLog := do
  let r ← record ["run_id", "started_at", "finished_at", "status", "plan", "in_flight", "failure",
    "entries"] j
  return {
    runId := ← required "run_id" asString r
    startedAt := ← required "started_at" asString r
    finishedAt := ← optional "finished_at" asString r
    status := ← required "status" RunStatus.ofJson r
    plan := ← required "plan" (asList asString) r
    inFlight := ← optional "in_flight" InFlight.ofJson r
    failure := ← optional "failure" StepFailure.ofJson r
    entries := ← withDefault "entries" [] (asList LogEntry.ofJson) r }

/-- The stored form of a run log. -/
def render (log : RunLog) : String := log.toJson.pretty

/-- The run log of a stored form. -/
def parse (text : String) : Except Fault RunLog := do
  ofJson (← Json.parse text)

end RunLog

end Provision
