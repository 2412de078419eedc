import Provision.Effect
import Provision.RunId
import Provision.Run.Error

/-!
# Keeping the log of a run

The log is on disk before the host is touched and again right after, so that
whatever happened is recorded before the run goes on. A change to the log only
asks for the time; `Journal.save` puts the log on disk.

* `Journal.create`, `Journal.start`: the log of a new run.
* `Journal.marked`, `recorded`, `failed`, `finished`: the changes to a log.
-/

namespace Provision.Journal

/-- What keeping a log does. -/
abbrev Kept (ε α : Type) : Type := ExceptT ε Effects α

/-- A request to the store. -/
def stored {α : Type} (ask : Effects (Except StoreError α)) : Kept RunError α :=
  ExceptT.mk ((·.mapError RunError.store) <$> ask)

/-- Put a log on disk. -/
def save (log : RunLog) : Kept StoreError Unit :=
  ExceptT.mk (Script.request (I := Effect.interface) (.save log))

/-- The log of a new run, on disk. -/
def create (plan : List String) : Kept StoreError RunLog := do
  let created ← Effect.clock
  let process ← Script.request (I := Effect.interface) .process
  let started ← Effect.clock
  let log := RunLog.start (RunId.fresh created process plan) started.rfc3339 plan
  save log
  return log

/-- The log of a new run that is running, on disk. -/
def start (plan : List String) : Kept StoreError RunLog := do
  let log ← create plan
  let log := { log with status := .running }
  save log
  return log

/-- The log with a step in flight. -/
def marked (log : RunLog) (step : Step) : Effects RunLog := do
  let since ← Effect.clock
  return { log with inFlight := some ⟨step.id, step.action, since.rfc3339⟩ }

/-- The log with a result of a step. -/
def recorded (log : RunLog) (step : String) (result : StepResult) (action : Option StepAction) :
    Effects RunLog := do
  let now ← Effect.clock
  return log.push ⟨step, result, action, now.rfc3339⟩

/-- The log with the step that stopped the run. A step that failed has left
nothing behind, so it is in flight no longer. -/
def failed (log : RunLog) (step : String) (failure : Failure) : RunLog :=
  { log with inFlight := none, failure := some ⟨step, failure⟩ }

/-- The log of a run that has ended. -/
def finished (log : RunLog) (status : RunStatus) : Effects RunLog := do
  let now ← Effect.clock
  return { log with status, finishedAt := some now.rfc3339 }

end Provision.Journal
