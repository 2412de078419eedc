import Provision.UnitOp

/-!
# Outcomes

What applying a step changed, why it failed, and what is recorded of it.

* `Change`: what has to be undone to undo a step.
* `Failure`: the kind of a failure and its text; only one kind is worth
  retrying.
* `StepResult`: an entry of the record of a run.
-/

namespace Provision

/-- What applying a step changed on the host. -/
inductive Change where
  | mount (mounted : Bool)
  | service (ops : List UnitOp)
deriving DecidableEq, Inhabited, Repr

namespace Change

/-- Whether nothing was changed. -/
def isNoop : Change → Bool
  | mount mounted => !mounted
  | service ops => ops.isEmpty

/-- The change in words. -/
def describe : Change → String
  | mount true => "mounted"
  | mount false => "already mounted"
  | service [] => "already in desired state"
  | service ops => ", ".intercalate (ops.map UnitOp.name)

end Change

/-- The kinds of failure. -/
inductive FailureKind where
  /-- The mount table holds another file system at the target. -/
  | conflict
  /-- The control bus could not be reached, or did not answer in time. -/
  | unreachable
  /-- The service manager refused the operation. -/
  | rejected
  | noSuchUnit
  /-- An error of the operating system. -/
  | os
deriving DecidableEq, Inhabited, Repr

namespace FailureKind

/-- Only an unreachable bus is worth another attempt. -/
def isTransient : FailureKind → Bool
  | unreachable => true
  | _ => false

/-- The kind as it is shown. -/
def label : FailureKind → String
  | conflict => "Conflict"
  | unreachable => "Unreachable"
  | rejected => "Rejected"
  | noSuchUnit => "NoSuchUnit"
  | os => "Os"

/-- The kind as it is stored. -/
def name : FailureKind → String
  | conflict => "conflict"
  | unreachable => "unreachable"
  | rejected => "rejected"
  | noSuchUnit => "no_such_unit"
  | os => "os"

/-- Every kind with its stored name. -/
def byName : List (String × FailureKind) :=
  [conflict, unreachable, rejected, noSuchUnit, os].map fun k => (k.name, k)

theorem lookup_byName (k : FailureKind) : byName.lookup k.name = some k := by
  cases k <;> decide

end FailureKind

/-- Why a step failed. -/
structure Failure where
  kind : FailureKind
  text : String
deriving DecidableEq, Inhabited, Repr

/-- The failure in words. -/
def Failure.describe (f : Failure) : String := f.kind.label ++ ": " ++ f.text

/-- What is recorded of a step. -/
inductive StepResult where
  | pending
  | applied (change : Change)
  | failed (failure : Failure)
  | rolledBack
  | rollbackFailed (failure : Failure)
  | skipped
deriving DecidableEq, Inhabited, Repr

namespace StepResult

/-- Whether the step was applied. -/
def isApplied : StepResult → Bool
  | applied _ => true
  | _ => false

/-- The name of the result. -/
def label : StepResult → String
  | pending => "Pending"
  | applied _ => "Applied"
  | failed _ => "Failed"
  | rolledBack => "RolledBack"
  | rollbackFailed _ => "RollbackFailed"
  | skipped => "Skipped"

/-- The result in words: its name, and the kind of failure. -/
def describe (r : StepResult) : String :=
  match r with
  | failed f | rollbackFailed f => r.label ++ "(" ++ f.kind.label ++ ")"
  | _ => r.label

end StepResult

end Provision
