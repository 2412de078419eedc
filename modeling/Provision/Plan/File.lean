import Provision.Action
import Provision.Plan.Error
import Provision.Text.Blank

/-!
# Plan files

A plan file lists the steps that bring a host to its desired state. Each step is
checked on its own; what concerns several steps is for the registry.

* `PlanFile.validate`: the checks, in the order in which they are reported.
* `Step.check`: the checks of one step.
-/

namespace Provision

/-- A plan as it is written down. -/
structure PlanFile where
  version : Nat
  description : Option String := none
  steps : List Step
deriving DecidableEq, Inhabited, Repr

/-- The first complaint of a list of checks. -/
def firstComplaint {ε : Type} (checks : List (Bool × ε)) : Except ε Unit :=
  match checks.find? (·.1) with
  | some (_, e) => .error e
  | none => .ok ()

/-- Whether something is asked of a unit. -/
def ServiceUnit.asksSomething (unit : ServiceUnit) : Bool :=
  unit.enabled.isSome || unit.active.isSome || unit.refresh.isSome || unit.reloadManager

/-- What can be wrong with the action of a step, in the order in which it is
reported. -/
def StepAction.complaints (step : String) : StepAction → List (Bool × PlanError)
  | mount spec =>
    [(!spec.target.isAbsolute, .relativeMountTarget step spec.target),
      (Text.isBlankText spec.source, .emptyMountField step "source"),
      (Text.isBlankText spec.fstype, .emptyMountField step "fstype")]
  | service unit =>
    [(Text.isBlankText unit.name, .emptyUnitName step), (!unit.asksSomething, .noDesiredState step)]

namespace Step

/-- What can be wrong with a step, in the order in which it is reported. -/
def complaints (step : Step) : List (Bool × PlanError) :=
  (step.id == "", .emptyStepId) :: (step.id.toList.any Text.isBlank, .invalidStepId step.id) ::
    step.action.complaints step.id

/-- The checks of one step. -/
def check (step : Step) : Except PlanError Unit := firstComplaint step.complaints

end Step

/-- The checks of a plan. -/
def PlanFile.validate (plan : PlanFile) : Except PlanError Unit := do
  firstComplaint
    [(plan.version != planVersion, .unsupportedVersion plan.version), (plan.steps == [], .empty)]
  plan.steps.forM Step.check

end Provision
