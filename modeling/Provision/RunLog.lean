import Provision.Action
import Provision.Outcome

/-!
# Run logs

The record of one run: what it was to do, what is in flight, and a result for
every step that something happened to, in order.

* `RunLog.push`: a result is added at the end, and clears the step in flight if
  it names it.
* `RunLog.lastResult?`: what was last recorded of a step.
* `RunLog.outstanding`: what still has to be undone, in the order it was done.
-/

namespace Provision

/-- Why a run was stopped. -/
inductive AbortCause where
  /-- A step failed. -/
  | failure
  /-- The operator interrupted the run. -/
  | cancelled
  /-- The operator had the run undone. -/
  | operator
deriving DecidableEq, Inhabited, Repr

/-- The name of a cause, as it is stored. -/
def AbortCause.name : AbortCause → String
  | failure => "failure"
  | cancelled => "cancelled"
  | operator => "operator"

/-- Every cause with its stored name. -/
def AbortCause.byName : List (String × AbortCause) :=
  [failure, cancelled, operator].map fun c => (c.name, c)

/-- How far a run has come. -/
inductive RunStatus where
  | notStarted
  | running
  | completed
  | aborted (cause : AbortCause)
deriving DecidableEq, Inhabited, Repr

/-- The status in words. -/
def RunStatus.describe : RunStatus → String
  | notStarted => "not started"
  | running => "running"
  | completed => "completed"
  | aborted .failure => "aborted (failure)"
  | aborted .cancelled => "aborted (cancelled)"
  | aborted .operator => "aborted (rolled back)"

/-- A step whose action has started and whose result is not recorded yet. -/
structure InFlight where
  step : String
  action : StepAction
  since : String
deriving DecidableEq, Inhabited, Repr

/-- The step that stopped a run, and why. -/
structure StepFailure where
  step : String
  failure : Failure
deriving DecidableEq, Inhabited, Repr

/-- A result recorded of a step. -/
structure LogEntry where
  step : String
  result : StepResult
  action : Option StepAction := none
  recorded : String
deriving DecidableEq, Inhabited, Repr

/-- The entry in one line. -/
def LogEntry.describe (e : LogEntry) : String := e.step ++ ":" ++ e.result.describe

/-- The record of one run. Moments are kept as text. -/
structure RunLog where
  runId : String
  startedAt : String
  finishedAt : Option String := none
  status : RunStatus
  plan : List String
  inFlight : Option InFlight := none
  failure : Option StepFailure := none
  entries : List LogEntry := []
deriving DecidableEq, Inhabited, Repr

/-- A step that still has to be undone, and how. -/
structure Outstanding where
  step : String
  action : Option StepAction
  change : Change
  recorded : String
deriving DecidableEq, Inhabited, Repr

namespace RunLog

/-- The log of a run that has not started. -/
def start (runId startedAt : String) (plan : List String) : RunLog :=
  { runId, startedAt, status := .notStarted, plan }

/-- Add a result at the end. It clears the step in flight if it names it. -/
def push (log : RunLog) (entry : LogEntry) : RunLog :=
  { log with
    inFlight := log.inFlight.filter (·.step ≠ entry.step)
    entries := log.entries ++ [entry] }

/-- What was last recorded of a step. -/
def lastResult? (log : RunLog) (step : String) : Option StepResult :=
  (log.entries.reverse.find? (·.step = step)).map (·.result)

/-- Whether a step was applied, or could not be rolled back, last of all. -/
def isHeld (log : RunLog) (step : String) : Bool :=
  match log.lastResult? step with
  | some (.applied _) | some (.rollbackFailed _) => true
  | _ => false

/-- The changes not rolled back yet, in the order they were made. A step whose
rollback failed last is still to be undone. -/
def outstanding (log : RunLog) : List Outstanding :=
  (log.entries.filter fun e => log.isHeld e.step).filterMap fun e =>
    match e.result with
    | .applied change => some ⟨e.step, e.action, change, e.recorded⟩
    | _ => none

/-- The entries in words, in order. -/
def trail (log : RunLog) : List String := log.entries.map LogEntry.describe

end RunLog

end Provision
