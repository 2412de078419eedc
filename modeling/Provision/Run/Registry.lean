import Provision.Action
import Provision.Plan.File
import Provision.Run.Error

/-!
# Ordering steps

Steps are registered one by one, under different names and with different mount
targets. They run in an order in which every step follows the steps it depends
on; among those that are ready the one registered first comes first.

* `Registry.register`: one more step, or the registry as it was.
* `Registry.plan`: the order, unless a dependency is unknown or there is a
  cycle.
* `Order.place`: repeatedly the first step that is ready.
* `Order.prune`: the steps that others among them need, again and again.
-/

namespace Provision

/-- Steps in the order in which they run. -/
structure RunPlan where
  steps : List Step := []
deriving DecidableEq, Inhabited, Repr

namespace RunPlan

/-- The names of the steps, in order. -/
def ids (plan : RunPlan) : List String := plan.steps.map (·.id)

/-- The step with a name. -/
def get? (plan : RunPlan) (id : String) : Option Step := plan.steps.find? (·.id = id)

end RunPlan

namespace Order

/-- Whether everything a step depends on has been placed. -/
def isReady (placed : List Step) (step : Step) : Bool :=
  step.dependsOn.all fun d => placed.any (·.id = d)

/-- Place the first step that is ready, at most `n` times. The steps that have
been placed, and those that still wait. -/
def place : Nat → List Step → List Step → List Step × List Step
  | 0, placed, waiting => (placed, waiting)
  | n + 1, placed, waiting =>
    match waiting.find? (isReady placed) with
    | none => (placed, waiting)
    | some step => place n (placed ++ [step]) (waiting.erase step)

/-- Whether one of some steps depends on a step. -/
def isNeeded (steps : List Step) (step : Step) : Bool :=
  steps.any fun other => other.dependsOn.contains step.id

/-- Leave out, `n` times, the steps that none of the others needs. -/
def prune : Nat → List Step → List Step
  | 0, steps => steps
  | n + 1, steps => prune n (steps.filter (isNeeded steps))

end Order

/-- The steps that have been registered, in order. -/
structure Registry where
  steps : List Step := []
deriving DecidableEq, Inhabited, Repr

namespace Registry

/-- Whether a name has been registered. -/
def contains (r : Registry) (id : String) : Bool := r.steps.any (·.id = id)

/-- The place of a name among those registered. -/
def index? (r : Registry) (id : String) : Option Nat := r.steps.findIdx? (·.id = id)

/-- The registered step that mounts a file system at the same place. -/
def rival? (r : Registry) (target : Path) : Option Step :=
  r.steps.find? fun s => s.action.mountTarget?.any (·.same target)

/-- One more step. -/
def register (r : Registry) (step : Step) : Except RunError Registry :=
  if r.contains step.id then .error (.duplicateStep step.id)
  else
    match step.action.mountTarget? with
    | none => .ok ⟨r.steps ++ [step]⟩
    | some target =>
      match r.rival? target with
      | some other => .error (.duplicateMountTarget other.id step.id target)
      | none => .ok ⟨r.steps ++ [step]⟩

/-- The registry of the steps of a plan file. -/
def ofPlanFile (plan : PlanFile) : Except RunError Registry := plan.steps.foldlM register {}

/-- A step and a dependency of it that is not registered. -/
def unknownDependency? (r : Registry) : Option (String × String) :=
  r.steps.findSome? fun s => (s.dependsOn.find? (!r.contains ·)).map (s.id, ·)

/-- The order in which the steps run. -/
def plan (r : Registry) : Except RunError RunPlan :=
  match r.unknownDependency? with
  | some (step, dependency) => .error (.unknownDependency step dependency)
  | none =>
    match Order.place r.steps.length [] r.steps with
    | (placed, []) => .ok ⟨placed⟩
    | (_, waiting) => .error (.cycle ((Order.prune waiting.length waiting).map (·.id)))

end Registry

end Provision
