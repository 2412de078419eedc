import Provision.IoError
import Provision.Outcome
import Provision.Path

/-!
# Host errors

Why a request to the host failed, in words and by kind.

* `HostError.kind`: the kind that is recorded; only an unreachable bus is worth
  another attempt (`isTransient_iff`).
* `HostError.message`: the error in words.
-/

namespace Provision

/-- Why a file system could not be mounted. -/
inductive MountFault where
  /-- What mount(8) said. -/
  | reported (text : String)
  /-- mount(8) succeeded, but the table lists nothing at the target. -/
  | nothingMounted
  /-- The table lists another file system. -/
  | mismatched (observed : String)
  /-- The table could not be read afterwards. -/
  | unverified (error : String)
  /-- What was mounted could not be unmounted again. -/
  | leftMounted (fault : MountFault) (error : String)
deriving DecidableEq, Inhabited, Repr

/-- The fault in words. -/
def MountFault.message : MountFault → String
  | reported text => text
  | nothingMounted => "mount(8) succeeded but nothing is mounted"
  | mismatched observed =>
    "mount table shows " ++ observed ++ " instead of the requested filesystem"
  | unverified error => "cannot verify the new mount: " ++ error
  | leftMounted fault error => fault.message ++ "; unmounting it again failed: " ++ error

/-- Why a request to the host failed. -/
inductive HostError where
  | io (error : IoError)
  | conflict (target : Path) (observed requested : String)
  | mountFailed (target : Path) (fault : MountFault)
  | unmountFailed (target : Path) (reason : String)
  | unreachable (reason : String)
  | rejected (unit op reason : String)
  | noSuchUnit (unit : String)
  | backendUnavailable (name : String)
  | backend (reason : String)
deriving DecidableEq, Inhabited, Repr

namespace HostError

/-- The kind of failure an error is recorded as. -/
def kind : HostError → FailureKind
  | conflict .. => .conflict
  | unreachable _ => .unreachable
  | rejected .. => .rejected
  | noSuchUnit _ => .noSuchUnit
  | io _ | mountFailed .. | unmountFailed .. | backendUnavailable _ | backend _ => .os

/-- Whether another attempt may succeed. -/
def isTransient (e : HostError) : Bool := e.kind.isTransient

theorem isTransient_iff {e : HostError} : e.isTransient = true ↔ ∃ r, e = .unreachable r := by
  cases e <;> simp [isTransient, kind, FailureKind.isTransient]

/-- The error in words. -/
def message : HostError → String
  | io e => "host I/O error: " ++ e.message
  | conflict target observed requested =>
    "mount conflict at " ++ target.text ++ ": found " ++ observed ++ ", requested " ++ requested
  | mountFailed target fault => "mount of " ++ target.text ++ " failed: " ++ fault.message
  | unmountFailed target reason => "unmount of " ++ target.text ++ " failed: " ++ reason
  | unreachable reason => "control bus unreachable: " ++ reason
  | rejected unit op reason => "systemd rejected " ++ op ++ " of " ++ unit ++ ": " ++ reason
  | noSuchUnit unit => "no such unit: " ++ unit
  | backendUnavailable name => "host backend '" ++ name ++ "' is not available"
  | backend reason => "host backend error: " ++ reason

/-- The error as it is recorded. -/
def toFailure (e : HostError) : Failure := ⟨e.kind, e.message⟩

end HostError

end Provision
