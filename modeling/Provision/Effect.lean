import Provision.Duration
import Provision.Host.Call
import Provision.Instant
import Provision.RunLog
import Provision.Script
import Provision.Store.Error

/-!
# Effects of a run

All that carrying out a plan asks of the world: calls to the host, the run log
store and its lock, the clock, and whether the operator wants to stop. Whatever
a run does is a script over this interface.

* `Effect`, `Effect.interface`: the requests and their replies.
* `Effects`: the scripts that make them.
* `Effect.call`, `save`, …: the scripts that make one request.
-/

namespace Provision

/-- A request made while a plan is carried out. -/
inductive Effect where
  /-- A call to the host. -/
  | host (call : HostCall)
  /-- What some paths lead to, through symbolic links. -/
  | resolve (paths : List Path)
  /-- Wait. -/
  | pause (length : Duration)
  /-- Whether the operator wants the run to stop. -/
  | cancelled
  | now
  /-- The number of this process. -/
  | process
  /-- Take the lock of the state directory, unless it is held. -/
  | lock
  | unlock
  /-- Make the state directory. -/
  | prepare
  /-- Put a run log on disk, whole. -/
  | save (log : RunLog)
  | load (id : String)
  /-- The log of the most recent run. -/
  | latest

namespace Effect

/-- What a request returns. -/
@[reducible] def Reply : Effect → Type
  | host call => call.Reply
  | resolve _ => Path → Option Path
  | pause _ => Unit
  | cancelled => Bool
  | now => Instant
  | process => Nat
  | lock => Except IoError Bool
  | unlock => Unit
  | prepare => Except StoreError Unit
  | save _ => Except StoreError Unit
  | load _ => Except StoreError RunLog
  | latest => Except StoreError RunLog

/-- The interface of a run. -/
abbrev interface : Interface := ⟨Effect, Reply⟩

end Effect

/-- What is done by making these requests. -/
abbrev Effects (α : Type) : Type := Script Effect.interface α

namespace Effect

/-- Make one call to the host. -/
def call (c : HostCall) : Effects c.Reply := Script.request (I := interface) (.host c)

/-- What some paths lead to. -/
def resolutions (paths : List Path) : Effects (Path → Option Path) :=
  Script.request (I := interface) (.resolve paths)

/-- Wait. -/
def wait (length : Duration) : Effects Unit :=
  Script.request (I := interface) (.pause length)

/-- Whether the operator wants the run to stop. -/
def isCancelled : Effects Bool := Script.request (I := interface) .cancelled

/-- The time. -/
def clock : Effects Instant := Script.request (I := interface) .now

end Effect

end Provision
