import Mathlib.Data.List.Basic
import Provision.Run.Registry

/-!
# Registering steps in place

The registry of `Registry.register` with an index: the place of every name is kept in a table, so
that no name has to be looked for. Registering changes the registry in place, and when it fails, what
has been changed by then stays changed.

* `IndexedRegistry.register`: register one step.
* `IndexedRegistry.registerAll`: register steps, whatever becomes of each.
* `IndexedRegistry.ofPlanFile`: register the steps of a plan file, up to the first failure.
-/

namespace Provision

/-- The steps that have been registered, in order, and the place of each name. -/
structure IndexedRegistry where
  steps : List Step := []
  index : Std.HashMap String Nat := {}

namespace IndexedRegistry

/-- Whether a name has been registered. -/
def contains (r : IndexedRegistry) (id : String) : Bool := r.index.contains id

/-- The registered step that mounts a file system at the same place. -/
def rival? (r : IndexedRegistry) (target : Path) : Option Step :=
  r.steps.find? fun s => s.action.mountTarget?.any (·.same target)

/-- Register one step. -/
def register (step : Step) : EStateM RunError IndexedRegistry Unit := do
  if (← get).contains step.id then throw (.duplicateStep step.id)
  if let some target := step.action.mountTarget? then
    if let some other := (← get).rival? target then
      throw (.duplicateMountTarget other.id step.id target)
  modify fun r => { r with index := r.index.insert step.id r.steps.length }
  modify fun r => { r with steps := r.steps ++ [step] }

/-- Register steps, whatever becomes of each. What became of each, and the registry in the end. -/
def registerAll (r : IndexedRegistry) : List Step → List (Except RunError Unit) × IndexedRegistry
  | [] => ([], r)
  | step :: rest =>
    match (register step).run r with
    | .ok () r' => (registerAll r' rest).map (.ok () :: ·) id
    | .error e r' => (registerAll r' rest).map (.error e :: ·) id

/-- The registry of the steps of a plan file. -/
def ofPlanFile (plan : PlanFile) : Except RunError IndexedRegistry :=
  match (plan.steps.forM register).run {} with
  | .ok () r => .ok r
  | .error e _ => .error e

end IndexedRegistry

end Provision
