import Provision.Action.Apply
import Provision.Action.Preview
import Provision.Layout
import Provision.Run.Journal
import Provision.Run.Registry
import Provision.Run.Report
import Provision.Text.Blank

/-!
# Carrying out plans

Steps run strictly in order. After the first step that fails, or once the
operator wants to stop, no further step is tried; what has been applied is
rolled back in reverse order and the run is aborted. A recorded run can be
rolled back later, also one that was interrupted.

* `Orchestrator.run`: carry out the steps of a registry.
* `Orchestrator.rollbackRun`: roll back a recorded run.
* `Orchestrator.preview`: what a run would do; it touches nothing.
* `Orchestrator.forward`, `unwindAll`: the two halves of a run.
-/

namespace Provision

/-- How runs are carried out, and where they are recorded. -/
structure Orchestrator where
  layout : Layout
  retry : Retry
deriving DecidableEq, Inhabited, Repr

namespace Orchestrator

open Journal

/-- What carrying out a plan does. -/
abbrev Running (α : Type) : Type := Kept RunError α

/-- Put a log on disk. -/
def persist (log : RunLog) : Running Unit := stored (Journal.save log)

/-- Do something while the run lock is held. -/
def locked {α : Type} (o : Orchestrator) (act : Running α) : Running α := do
  if ← ExceptT.mk ((·.mapError RunError.io) <$> Script.request (I := Effect.interface) .lock) then
    let result ← ExceptT.lift act.run
    Script.request (I := Effect.interface) .unlock
    ExceptT.mk (.done result)
  else throw (.locked o.layout.lockFile)

/-- The steps in order, unless a step that is to be skipped is not among
them. -/
def checkedPlan (registry : Registry) (skip : List String) : Except RunError RunPlan := do
  let plan ← registry.plan
  match Text.least? (skip.filter fun id => (plan.get? id).isNone) with
  | some id => .error (.unknownStep id)
  | none => .ok plan

/-- A change that has been made and may have to be undone. -/
structure Made where
  step : String
  action : Option StepAction
  change : Change
deriving DecidableEq, Inhabited, Repr

/-- Why the forward half of a run came to an end. -/
inductive Halt where
  | complete
  | cancelled
  | failed (step : Step) (failure : Failure)
deriving DecidableEq, Repr

/-- What the forward half of a run leaves: the log, the changes that were made,
in order, and why it ended. -/
structure Progress where
  log : RunLog
  made : List Made
  halt : Halt
deriving DecidableEq, Repr

/-- Apply one step. The log says so before the host is touched. -/
def applyStep (o : Orchestrator) (log : RunLog) (step : Step) :
    Running (RunLog × Except Failure Change) := do
  let log ← marked log step
  persist log
  match ← step.action.apply o.retry with
  | .ok change =>
    let log ← recorded log step.id (.applied change) (some step.action)
    persist log
    return (log, .ok change)
  | .error e =>
    let log := failed log step.id e.toFailure
    persist log
    return (log, .error e.toFailure)

/-- Apply steps in order, until one fails or the operator wants to stop. -/
def forward (o : Orchestrator) (skip : List String) (log : RunLog) (made : List Made) :
    List Step → Running Progress
  | [] => return ⟨log, made, .complete⟩
  | step :: rest => do
    if ← Effect.isCancelled then return ⟨log, made, .cancelled⟩
    if skip.contains step.id then
      let log ← recorded log step.id .skipped none
      persist log
      o.forward skip log made rest
    else
      match ← o.applyStep log step with
      | (log, .ok change) =>
        o.forward skip log (made ++ [⟨step.id, some step.action, change⟩]) rest
      | (log, .error failure) => return ⟨log, made, .failed step failure⟩

/-- What is recorded of a step whose action is not known. -/
def noAction : Failure := ⟨.os, "run log has no action recorded for this step"⟩

/-- What becomes of undoing a change. -/
def undo (o : Orchestrator) (m : Made) : Effects StepResult :=
  match m.action with
  | none => return .rollbackFailed noAction
  | some action => do
    match ← action.rollback o.retry m.change with
    | .ok () => return .rolledBack
    | .error e => return .rollbackFailed e.toFailure

/-- Undo changes in the order given. A failure is recorded and stops nothing.
The log, and whether all went well. -/
def unwindAll (o : Orchestrator) (log : RunLog) : List Made → Running (RunLog × Bool)
  | [] => return (log, true)
  | m :: rest => do
    let result ← o.undo m
    let log ← recorded log m.step result m.action
    persist log
    let (log, clean) ← o.unwindAll log rest
    return (log, result = .rolledBack && clean)

/-- The status of a run that ended in some way. -/
def Halt.status : Halt → RunStatus
  | .complete => .completed
  | .cancelled => .aborted .cancelled
  | .failed _ _ => .aborted .failure

/-- The changes to undo after a run ended in some way, last one first. -/
def Progress.toUndo (p : Progress) : List Made :=
  match p.halt with
  | .complete => []
  | .cancelled | .failed _ _ => p.made.reverse

/-- Record the failure of the step that stopped a run. -/
def recordHalt (log : RunLog) : Halt → Running RunLog
  | .complete | .cancelled => return log
  | .failed step failure => do
    let log ← recorded log step.id (.failed failure) (some step.action)
    persist log
    return log

/-- Put an end to a log. -/
def close (log : RunLog) (status : RunStatus) : Running RunLog := do
  let log ← finished log status
  persist log
  return log

/-- Carry out the steps of a plan, from the log of a new run on. -/
def carryOut (o : Orchestrator) (skip : List String) (plan : RunPlan) : Running RunReport := do
  stored (Script.request (I := Effect.interface) .prepare)
  let log ← stored (Journal.start plan.ids)
  let progress ← o.forward skip log [] plan.steps
  let (log, clean) ← o.unwindAll progress.log progress.toUndo
  let log ← recordHalt log progress.halt
  let log ← close log progress.halt.status
  return .ofLog log clean

/-- Carry out the steps of a registry, but for those that are to be skipped. -/
def run (o : Orchestrator) (registry : Registry) (skip : List String) : Running RunReport := do
  let plan ← ExceptT.mk (.done (checkedPlan registry skip))
  o.locked (o.carryOut skip plan)

/-- What a run would do. -/
def previewAll (skip : List String) : List Step → Effects (List StepPreview)
  | [] => return []
  | step :: rest => do
    let preview ← if skip.contains step.id then .done step.skippedPreview else step.preview
    return preview :: (← previewAll skip rest)

/-- What a run of the steps of a registry would do. -/
def preview (registry : Registry) (skip : List String) : Running (List StepPreview) := do
  let plan ← ExceptT.mk (.done (checkedPlan registry skip))
  previewAll skip plan.steps

/-- What a log says is left to undo, in the order it was done. A step that was in
flight is taken to have changed all that it could. -/
def leftover (log : RunLog) : List Made :=
  (log.outstanding.map fun e => ⟨e.step, e.action, e.change⟩) ++
    (log.inFlight.map fun f => ⟨f.step, some f.action, f.action.assumedChange⟩).toList

/-- The status of a run that was rolled back. -/
def rolledBackStatus : RunStatus → RunStatus
  | .aborted cause => .aborted cause
  | .notStarted | .running | .completed => .aborted .operator

/-- Roll back what a log says is left to undo. -/
def rollbackLog (o : Orchestrator) (log : RunLog) : Running RunReport := do
  let targets := leftover log
  if targets = [] then return .ofLog log true
  let (unwound, clean) ← o.unwindAll log targets.reverse
  let closed ← close unwound (rolledBackStatus log.status)
  return .ofLog closed clean

/-- The log of a run, or of the most recent one. -/
def loadLog (id : Option String) : Running RunLog :=
  stored <| match id with
    | some id => Script.request (I := Effect.interface) (.load id)
    | none => Script.request (I := Effect.interface) .latest

/-- Roll back a recorded run, or the most recent one. -/
def rollbackRun (o : Orchestrator) (id : Option String) : Running RunReport :=
  o.locked do o.rollbackLog (← loadLog id)

end Orchestrator

end Provision
