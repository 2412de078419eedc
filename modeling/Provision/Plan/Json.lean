import Provision.Action.Codec
import Provision.Plan.File

/-!
# Plan files as JSON

* `PlanFile.toJson`: the plan as an object, one object a step.
* `Step.ofJson`: a step from an object with its action in it.
-/

namespace Provision

open Json

/-- A step of a plan file: its action stands among its own fields. -/
def Step.toJson (step : Step) : Json :=
  .object <| ("id", .string step.id) :: ("depends_on", .strings step.dependsOn) ::
    step.action.fields

/-- A plan as an object. -/
def PlanFile.toJson (plan : PlanFile) : Json :=
  .object <| ("plan_version", .int plan.version) ::
    member? "description" (plan.description.map .string) ++
    [("step", .array (plan.steps.map Step.toJson))]

/-- A step from an object in which its action is a field. -/
def Step.ofJson (j : Json) : Except Fault Step := do
  let r ← record ["id", "depends_on", "action"] j
  return {
    id := ← required "id" asString r
    dependsOn := ← withDefault "depends_on" [] (asList asString) r
    action := ← required "action" (StepAction.ofJson false) r }

end Provision
