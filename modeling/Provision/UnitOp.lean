/-!
# Operations on a unit

The six operations a control bus offers on one unit, which of them undo which,
and the order in which several are issued.

* `UnitOp.inverse?_inverse?`: undoing is mutual.
* `UnitOp.rank`: enabling first, then activity, then a refresh, then disabling.
-/

namespace Provision

/-- A single operation on a unit. -/
inductive UnitOp where
  | enable
  | disable
  | start
  | stop
  | reload
  | restart
deriving DecidableEq, Inhabited, Repr

namespace UnitOp

/-- The operation that undoes this one. A refresh leaves the unit in the state
it found it in, so nothing undoes it. -/
def inverse? : UnitOp → Option UnitOp
  | enable => some disable
  | disable => some enable
  | start => some stop
  | stop => some start
  | reload | restart => none

/-- The place in a list of operations: enabling first, then starting and
stopping, then a refresh, then disabling. -/
def rank : UnitOp → Nat
  | enable => 0
  | start | stop => 1
  | reload | restart => 2
  | disable => 3

/-- The name of the operation. -/
def name : UnitOp → String
  | enable => "enable"
  | disable => "disable"
  | start => "start"
  | stop => "stop"
  | reload => "reload"
  | restart => "restart"

/-- Every operation with its name. -/
def byName : List (String × UnitOp) :=
  [enable, disable, start, stop, reload, restart].map fun op => (op.name, op)

theorem inverse?_inverse? {op inv : UnitOp} (h : op.inverse? = some inv) :
    inv.inverse? = some op := by
  cases op <;> cases h <;> rfl

theorem lookup_byName (op : UnitOp) : byName.lookup op.name = some op := by
  cases op <;> decide

end UnitOp

instance : ToString UnitOp where
  toString := UnitOp.name

end Provision
