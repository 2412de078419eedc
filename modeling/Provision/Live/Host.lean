import Provision.Host.Call
import Provision.Live.Manager
import Provision.Live.Mounts

/-!
# The live host

* `Live.call`: how a call to the host is carried out on the machine the program
  runs on.
-/

namespace Provision.Live

/-- Where the mount table is, and how long a call on the bus may take. -/
structure Host where
  table : Path := kernelTable
  timeout : Duration

/-- Carry out a call to the host. -/
def call (host : Host) : (c : HostCall) → SystemCalls c.Reply
  | .find target => findMount host.table target
  | .mount spec => mount spec
  | .unmount target => unmount target
  | .unitState unit => (unitState host.timeout unit).run
  | .issue op unit | .undo op unit => (issue host.timeout op unit).run
  | .reloadManager => (reloadManager host.timeout).run

end Provision.Live
