import Provision.Host.Call
import Provision.Mock.Manager
import Provision.Mock.Table

/-!
# A host in memory

A mount table and a service manager in memory, which answer every call to the
host. Both start empty with the process.

* `Mock.Host.answer`: the reply to a call, and the host after it.
-/

namespace Provision.Mock

/-- A host in memory. -/
structure Host where
  table : Table := {}
  manager : Manager := {}
deriving DecidableEq, Inhabited, Repr

namespace Host

/-- A host on which every unit exists. -/
def lenient : Host := { manager := { lenient := true } }

/-- The reply to a call, and the host after it. -/
def answer : (c : HostCall) → Host → c.Reply × Host
  | .find target, h => (.ok (h.table.find target), h)
  | .mount spec, h =>
    let (reply, table) := h.table.mount spec
    (reply, { h with table })
  | .unmount target, h =>
    let (reply, table) := h.table.unmount target
    (reply, { h with table })
  | .unitState unit, h => (.ok (h.manager.state unit), h)
  | .issue op unit, h | .undo op unit, h =>
    let (reply, manager) := h.manager.issue op unit
    (reply, { h with manager })
  | .reloadManager, h => (.ok (), { h with manager := h.manager.reload })

end Host

end Provision.Mock
