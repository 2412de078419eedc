import Provision.Host.Error
import Provision.SystemCall
import Provision.Units.State

/-!
# The service manager on the control bus

Every call has a time limit, so that a manager that hangs shows as an
unreachable bus.

* `Live.unitState`: what the manager reports of a unit.
* `Live.issue`, `Live.reloadManager`: operations.
-/

namespace Provision.Live

open SystemCall

/-- What a call on the bus does. -/
abbrev OnBus (α : Type) : Type := ExceptT HostError SystemCalls α

/-- Make sure that there is a connection. -/
def connect (timeout : Duration) : OnBus Unit :=
  ExceptT.mk do
    let reply ← request (.connectBus timeout)
    return (reply : Except String Unit).mapError fun text => .unreachable ("system bus: " ++ text)

/-- Call a method; `unit` and `op` are for the error. -/
def callBus (unit op : String) (method : BusMethod) : OnBus String :=
  ExceptT.mk do
    let reply ← request (.callBus method)
    return (reply : Except Bus.Error String).mapError (Bus.classify unit op)

/-- What the manager reports of a unit. -/
def unitState (timeout : Duration) (unit : String) : OnBus UnitState := do
  connect timeout
  let object ← callBus unit "load" (.loadUnit unit)
  let loadState ← callBus unit "query" (.loadState object)
  if loadState = "not-found" then return ⟨loadState, "inactive", ""⟩
  let activeState ← callBus unit "query" (.activeState object)
  let fileState ← callBus unit "query" (.unitFileState unit)
  return ⟨loadState, activeState, fileState⟩

/-- Have the manager read its configuration again. -/
def reloadManager (timeout : Duration) : OnBus Unit := do
  connect timeout
  let _ ← callBus "" "reload" .reload

/-- Call a method on a unit. -/
def callUnit (timeout : Duration) (unit : String) (op : UnitOp) (method : BusMethod) :
    OnBus Unit := do
  connect timeout
  let _ ← callBus unit op.name method

/-- Change a unit file. The change is on disk once the method returns, so it
counts even if reading the configuration again fails. -/
def changeUnitFile (timeout : Duration) (unit : String) (op : UnitOp) (method : BusMethod) :
    OnBus Unit := do
  callUnit timeout unit op method
  let _ ← ExceptT.lift (reloadManager timeout).run

/-- An operation on a unit. -/
def issue (timeout : Duration) (op : UnitOp) (unit : String) : OnBus Unit :=
  match op with
  | .enable => changeUnitFile timeout unit op (.enableUnitFile unit)
  | .disable => changeUnitFile timeout unit op (.disableUnitFile unit)
  | .start => callUnit timeout unit op (.startUnit unit)
  | .stop => callUnit timeout unit op (.stopUnit unit)
  | .reload => callUnit timeout unit op (.reloadUnit unit)
  | .restart => callUnit timeout unit op (.restartUnit unit)

end Provision.Live
