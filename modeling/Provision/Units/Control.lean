import Provision.Effect
import Provision.Outcome

/-!
# Bringing units to a desired state

Only the operations that are missing are issued. When one fails, those issued
before it are undone, so that a failed attempt leaves nothing behind but what a
lost reply hides.

* `Units.delta`: the missing operations, in the order of their ranks.
* `Units.reconcile`: issue them, and keep track of the operations whose reply was
  lost.
* `Units.revert`: issue the inverses in reverse order; a failure stops none of
  them.
-/

namespace Provision.Units

/-- The state of a unit, if the manager knows the unit. -/
def known (unit : ServiceUnit) (state : UnitState) : Except HostError UnitState :=
  if state.isLoaded then .ok state else .error (.noSuchUnit unit.unitName)

/-- The state of a unit now. -/
def state (unit : ServiceUnit) : Effects (Except HostError UnitState) := do
  match ← Effect.call (.unitState unit.unitName) with
  | .error e => return .error e
  | .ok state => return known unit state

/-- The operation that starts or stops a unit as desired. -/
def activation (unit : ServiceUnit) (state : UnitState) : List UnitOp :=
  match unit.active with
  | some true => if state.isActive then [] else [.start]
  | some false => if state.isActive then [.stop] else []
  | none => []

/-- The refresh of a unit that was running and goes on running. One that is
started comes up with its current configuration anyway. -/
def refreshment (unit : ServiceUnit) (state : UnitState) : List UnitOp :=
  if state.isActive ∧ unit.active ≠ some false then (unit.refresh.map Refresh.op).toList else []

/-- The operations that are missing. Enabling comes before starting and stopping
before disabling, so that a unit never runs while its enablement is in flux in
the wrong direction. -/
def delta (unit : ServiceUnit) (state : UnitState) : List UnitOp :=
  (if unit.enabled = some true ∧ !state.isEnabled then [.enable] else []) ++
    activation unit state ++ refreshment unit state ++
    (if unit.enabled = some false ∧ state.isEnabled ∧ !state.isFixed then [.disable] else [])

/-- The operations that are missing now. -/
def diff (unit : ServiceUnit) : Effects (Except HostError (List UnitOp)) := do
  return (← state unit).map (delta unit)

/-- Issue operations that undo others in order, whatever fails; the first error is
returned. -/
def undoEach (name : String) : List UnitOp → Effects (Except HostError Unit)
  | [] => return .ok ()
  | op :: rest => do
    let result ← Effect.call (.undo op name)
    let others ← undoEach name rest
    return match (result : Except HostError Unit) with
      | .ok () => others
      | .error e => .error e

/-- Undo operations: issue their inverses in reverse order. -/
def revert (unit : ServiceUnit) (ops : List UnitOp) : Effects (Except HostError Unit) :=
  undoEach unit.unitName (ops.reverse.filterMap UnitOp.inverse?)

/-- The operations whose reply was lost, after an operation failed. The manager
may have carried such an operation out. -/
def noteLost (uncertain : List UnitOp) (op : UnitOp) (e : HostError) : List UnitOp :=
  if e.isTransient ∧ op ∉ uncertain then uncertain ++ [op] else uncertain

/-- Issue operations in order after those that are done. When one fails, those
that are done are undone. -/
def issueAll (unit : ServiceUnit) (uncertain : List UnitOp) (issued : List UnitOp) :
    List UnitOp → Effects (Except HostError Unit × List UnitOp)
  | [] => return (.ok (), uncertain)
  | op :: rest => do
    match ← Effect.call (.issue op unit.unitName) with
    | .ok () => issueAll unit uncertain (issued ++ [op]) rest
    | .error e => do
      let _ ← revert unit issued
      return (.error e, noteLost uncertain op e)

/-- Have the manager read its configuration again, if that is asked for. -/
def reloadIfAsked (unit : ServiceUnit) : Effects (Except HostError Unit) :=
  if unit.reloadManager then Effect.call .reloadManager else return .ok ()

/-- Bring a unit to its desired state, once. Beside the result stand the
operations whose reply was lost in this attempt or before. -/
def reconcile (unit : ServiceUnit) (uncertain : List UnitOp) :
    Effects (Except HostError Change × List UnitOp) := do
  match ← reloadIfAsked unit with
  | .error e => return (.error e, uncertain)
  | .ok () =>
    match ← diff unit with
    | .error e => return (.error e, uncertain)
    | .ok ops => do
      let (result, uncertain) ← issueAll unit uncertain [] ops
      return (result.map fun () => .service ops, uncertain)

end Provision.Units
