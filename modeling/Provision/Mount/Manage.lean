import Provision.Effect
import Provision.Json.Value
import Provision.Mount.Entry
import Provision.Outcome

/-!
# Mounting

A file system is mounted only where nothing is mounted, what was mounted is
looked at again, and what does not turn out as requested is taken down. What is
mounted already is left alone.

* `Mount.inspect`: what the table says about a request.
* `Mount.mount`, `Mount.unmount`: at most one change to the table each.
* `Mount.revert`: undo a mount, as long as it is still the one that was made.
* `MountEntry.toJson`, `MountStatus.toJson`: an entry of the table and what it says, as objects.
-/

namespace Provision

/-- What the mount table says about a request. -/
inductive MountStatus where
  | absent
  | matching
  | conflicting (observed : MountEntry)
deriving DecidableEq, Inhabited, Repr

/-- An entry of the mount table as an object. -/
def MountEntry.toJson (e : MountEntry) : Json :=
  .object [("source", .string e.source), ("target", .string e.target.text),
    ("fstype", .string e.fstype), ("options", .strings e.options)]

/-- What the mount table says about a request as an object. -/
def MountStatus.toJson : MountStatus → Json
  | absent => .object [("status", .string "absent")]
  | matching => .object [("status", .string "matching")]
  | conflicting observed =>
    .object [("status", .string "conflicting"), ("observed", observed.toJson)]

namespace Mount

/-- What the mount table says about a request now. -/
def inspect (spec : MountSpec) : Effects (Except HostError MountStatus) := do
  match ← Effect.call (.find spec.target) with
  | .error e => return .error e
  | .ok none => return .ok .absent
  | .ok (some entry) =>
    let resolve ← Effect.resolutions (spec.linkedPaths entry)
    return .ok (if entry.satisfies resolve spec then .matching else .conflicting entry)

/-- Unmount what is at a place; whether there was anything. -/
def unmount (target : Path) : Effects (Except HostError Bool) := do
  match ← Effect.call (.find target) with
  | .error e => return .error e
  | .ok none => return .ok false
  | .ok (some _) =>
    match ← Effect.call (.unmount target) with
    | .error e => return .error e
    | .ok () => return .ok true

/-- What is wrong with a new mount, if anything. -/
def faultOf : Except HostError MountStatus → Option MountFault
  | .ok .matching => none
  | .ok (.conflicting observed) => some (.mismatched observed.describe)
  | .ok .absent => some .nothingMounted
  | .error e => some (.unverified e.message)

/-- Take down a mount that is not as requested. The target was empty before, so
what is there now is what was mounted. -/
def discard (spec : MountSpec) (fault : MountFault) : Effects (Except HostError Change) := do
  match ← unmount spec.target with
  | .ok _ => return .error (.mountFailed spec.target fault)
  | .error e => return .error (.mountFailed spec.target (.leftMounted fault e.message))

/-- Make sure that a file system is mounted. -/
def mount (spec : MountSpec) : Effects (Except HostError Change) := do
  match ← inspect spec with
  | .error e => return .error e
  | .ok .matching => return .ok (.mount false)
  | .ok (.conflicting observed) =>
    return .error (.conflict spec.target observed.describe spec.describe)
  | .ok .absent =>
    match ← Effect.call (.mount spec) with
    | .error e => return .error e
    | .ok () =>
      match faultOf (← inspect spec) with
      | none => return .ok (.mount true)
      | some fault => discard spec fault

/-- Undo a mount. Only one that was made is removed, and only while it is still
the requested file system. -/
def revert (spec : MountSpec) (change : Change) : Effects (Except HostError Unit) :=
  if change = .mount true then do
    match ← inspect spec with
    | .error e => return .error e
    | .ok .matching => return (← unmount spec.target).map fun _ => ()
    | .ok .absent | .ok (.conflicting _) => return .ok ()
  else return .ok ()

end Mount

end Provision
