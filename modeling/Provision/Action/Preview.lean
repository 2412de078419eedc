import Provision.Mount.Manage
import Provision.Units.Control

/-!
# Previews

What applying a step would do, as far as the host can tell now. Nothing is
changed.

* `Step.preview`: the preview of a step.
* `StepPreview.isBlocking`: applying the step would fail for certain.
-/

namespace Provision

/-- What applying a step would do. -/
inductive PreviewOutcome where
  | wouldMount
  | alreadyMounted
  | conflict (observed : String)
  | wouldIssue (ops : List UnitOp) (reloadManager : Bool)
  | inDesiredState
  | skipped
  | unknown (error : String)
deriving DecidableEq, Inhabited, Repr

/-- What applying a certain step would do. -/
structure StepPreview where
  step : String
  action : StepAction
  outcome : PreviewOutcome
deriving DecidableEq, Inhabited, Repr

namespace StepPreview

/-- Whether applying the step would fail for certain. -/
def isBlocking (p : StepPreview) : Bool :=
  match p.outcome with
  | .conflict _ => true
  | _ => false

/-- The operations, in words. -/
def opsText (ops : List UnitOp) (reloadManager : Bool) : String :=
  ", ".intercalate ((if reloadManager then ["daemon-reload"] else []) ++ ops.map UnitOp.name)

/-- What would be done, in words. -/
def forecast : PreviewOutcome → StepAction → String
  | .wouldMount, .mount spec => "would mount " ++ spec.describe
  | .alreadyMounted, .mount spec => spec.target.text ++ " already mounted"
  | .conflict observed, .mount spec =>
    "conflict: " ++ spec.target.text ++ " already holds " ++ observed
  | .wouldIssue ops reloadManager, .service unit =>
    "would " ++ opsText ops reloadManager ++ " " ++ unit.unitName
  | .inDesiredState, .service unit => unit.unitName ++ " already in desired state"
  | .skipped, action => "skipped (" ++ action.describe ++ ")"
  | .unknown error, _ => "cannot determine: " ++ error
  | _, action => action.describe

/-- The preview in words. -/
def describe (p : StepPreview) : String := p.step ++ ": " ++ forecast p.outcome p.action

end StepPreview

/-- What mounting would do, from what the table says. -/
def PreviewOutcome.ofStatus : Except HostError MountStatus → PreviewOutcome
  | .ok .absent => .wouldMount
  | .ok .matching => .alreadyMounted
  | .ok (.conflicting observed) => .conflict observed.describe
  | .error e => .unknown e.message

/-- What reconciling would do, from the missing operations. -/
def PreviewOutcome.ofDelta (reloadManager : Bool) :
    Except HostError (List UnitOp) → PreviewOutcome
  | .ok ops => if ops = [] ∧ !reloadManager then .inDesiredState else .wouldIssue ops reloadManager
  | .error e => .unknown e.message

namespace Step

/-- The preview of a step that is left out. -/
def skippedPreview (step : Step) : StepPreview := ⟨step.id, step.action, .skipped⟩

/-- What applying a step would do now. -/
def preview (step : Step) : Effects StepPreview := do
  match step.action with
  | .mount spec =>
    return ⟨step.id, step.action, .ofStatus (← Mount.inspect spec)⟩
  | .service unit =>
    return ⟨step.id, step.action, .ofDelta unit.reloadManager (← Units.diff unit)⟩

end Step

end Provision
