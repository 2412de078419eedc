import Provision.Host.Error
import Provision.Mount.Entry
import Provision.Units.State

/-!
# Calls to the host

The vocabulary in which the mount table and the service manager are used. Every
call reads or changes live state, and every call may fail.

* `HostCall`, `HostCall.Value`: a call and what it returns when it succeeds.
* `HostCall.isReading`: the calls that change nothing.
-/

namespace Provision

/-- A call to the host. -/
inductive HostCall where
  /-- The topmost file system mounted at a place. -/
  | find (target : Path)
  | mount (spec : MountSpec)
  /-- Remove the topmost file system mounted at a place. -/
  | unmount (target : Path)
  | unitState (unit : String)
  | issue (op : UnitOp) (unit : String)
  /-- Issue an operation that undoes an earlier one. -/
  | undo (op : UnitOp) (unit : String)
  /-- Have the service manager read its configuration again. -/
  | reloadManager
deriving DecidableEq, Repr

namespace HostCall

/-- What a call returns when it succeeds. -/
@[reducible] def Value : HostCall → Type
  | find _ => Option MountEntry
  | unitState _ => UnitState
  | mount _ | unmount _ | issue _ _ | undo _ _ | reloadManager => Unit

/-- What a call returns. -/
abbrev Reply (c : HostCall) : Type := Except HostError c.Value

/-- The calls that change nothing. -/
def isReading : HostCall → Bool
  | find _ | unitState _ => true
  | mount _ | unmount _ | issue _ _ | undo _ _ | reloadManager => false

end HostCall

end Provision
