import Provision.Host.Error
import Provision.Mount.Entry

/-!
# A mount table in memory

Entries are stacked: mounting adds one at the end, and the last one at a target
is the one that is found and unmounted.

* `Mock.Table.find`, `mount`, `unmount`: the calls.
-/

namespace Provision.Mock

/-- A mount table in memory. -/
structure Table where
  entries : List MountEntry := []
  /-- The targets at which nothing can be mounted or unmounted. -/
  failing : List Path := []
  mountCalls : Nat := 0
  unmountCalls : Nat := 0
deriving DecidableEq, Inhabited, Repr

namespace Table

/-- The last entry at a target. -/
def find (t : Table) (target : Path) : Option MountEntry :=
  t.entries.reverse.find? (·.target.same target)

/-- Whether calls on a target fail. -/
def isFailing (t : Table) (target : Path) : Bool := t.failing.any (·.same target)

/-- Add an entry. -/
def mount (spec : MountSpec) (t : Table) : Except HostError Unit × Table :=
  let t := { t with mountCalls := t.mountCalls + 1 }
  if t.isFailing spec.target then
    (.error (.mountFailed spec.target (.reported "mount: special device does not exist")), t)
  else (.ok (), { t with entries := t.entries ++ [.ofSpec spec] })

/-- The entries without the first one at a target. -/
def dropFirst (target : Path) : List MountEntry → Option (List MountEntry)
  | [] => none
  | e :: rest =>
    if e.target.same target then some rest else (dropFirst target rest).map (e :: ·)

/-- Remove the last entry at a target. -/
def unmount (target : Path) (t : Table) : Except HostError Unit × Table :=
  let t := { t with unmountCalls := t.unmountCalls + 1 }
  if t.isFailing target then (.error (.unmountFailed target "umount: target is busy"), t)
  else
    match dropFirst target t.entries.reverse with
    | some entries => (.ok (), { t with entries := entries.reverse })
    | none => (.error (.unmountFailed target "umount: not mounted"), t)

end Table

end Provision.Mock
