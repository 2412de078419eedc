import Provision.Mount.Manage
import Provision.Retry
import Provision.Units.Control

/-!
# Applying and undoing actions

An action is applied with retries, and the change it made is recorded so that
exactly that can be undone. An operation whose reply was lost counts as made.

* `StepAction.apply`: bring the host to what the action asks for.
* `StepAction.rollback`: undo a recorded change.
* `StepAction.assumedChange`: the largest change that applying can have made,
  for an action that was interrupted.
-/

namespace Provision

namespace Units

/-- Operations in the order of their ranks; those of one rank keep their order. -/
def inOrder (ops : List UnitOp) : List UnitOp :=
  [0, 1, 2, 3].flatMap fun rank => ops.filter (·.rank = rank)

/-- The operations of an attempt together with those whose reply was lost. -/
def mergeOps (ops uncertain : List UnitOp) : List UnitOp :=
  inOrder (uncertain.foldl (fun ops op => if op ∈ ops then ops else ops ++ [op]) ops)

/-- The operations that could be missing, whatever state a unit is in. A refresh
does not count, since nothing undoes it. -/
def desiredOps (unit : ServiceUnit) : List UnitOp :=
  (if unit.enabled = some true then [.enable] else []) ++
    (unit.active.map fun active => if active then .start else .stop).toList ++
    (if unit.enabled = some false then [.disable] else [])

/-- What remains to be done after the last attempt: lost operations belong to
the change, or are undone if there is none. -/
def settle (unit : ServiceUnit) :
    Except HostError Change → List UnitOp → Effects (Except HostError Change)
  | .ok (.service ops), uncertain => return .ok (.service (mergeOps ops uncertain))
  | .ok change, _ => return .ok change
  | .error e, uncertain => do
    let _ ← revert unit uncertain
    return .error e

end Units

namespace StepAction

/-- Bring the host to what the action asks for; what was changed. -/
def apply (policy : Retry) : StepAction → Effects (Except HostError Change)
  | mount spec => policy.repeating (Mount.mount spec)
  | service unit => do
    let (result, uncertain) ← policy.attempts (Units.reconcile unit) []
    Units.settle unit result uncertain

/-- Undo a change, once. -/
def undo : StepAction → Change → Effects (Except HostError Unit)
  | mount spec, change => Mount.revert spec change
  | service unit, .service ops => Units.revert unit ops
  | service unit, .mount _ =>
    return .error <| .backend <|
      "recorded change for " ++ unit.unitName ++ " is not a service change"

/-- Undo exactly the change that is recorded. -/
def rollback (policy : Retry) (action : StepAction) (change : Change) :
    Effects (Except HostError Unit) :=
  if change.isNoop then return .ok () else policy.repeating (action.undo change)

/-- The largest change that applying an action can have made. -/
def assumedChange : StepAction → Change
  | mount _ => .mount true
  | service unit => .service (Units.desiredOps unit)

end StepAction

end Provision
