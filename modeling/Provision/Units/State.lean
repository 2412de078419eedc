import Provision.Json.Value

/-!
# Unit states

What the service manager reports of a unit.

* `UnitState.isLoaded`, `isEnabled`, `isActive`, `isFixed`: what the reported
  words mean.
* `UnitState.toJson`: the state as an object.
-/

namespace Provision

/-- The state of a unit in the words of the service manager. -/
structure UnitState where
  loadState : String
  activeState : String
  fileState : String
deriving DecidableEq, Inhabited, Repr

namespace UnitState

/-- The states of unit files that start at boot, or that cannot be toggled and
are as enabled as they will ever get. -/
def enabledFileStates : List String :=
  ["enabled", "enabled-runtime", "static", "indirect", "generated", "alias"]

/-- The states of unit files that disabling does not change. -/
def fixedFileStates : List String := ["static", "indirect", "generated"]

/-- The states of units that run, or are about to. -/
def activeStates : List String := ["active", "activating", "reloading"]

/-- Whether the manager knows the unit. -/
def isLoaded (s : UnitState) : Bool := s.loadState != "not-found"

/-- Whether the unit starts at boot. -/
def isEnabled (s : UnitState) : Bool := enabledFileStates.contains s.fileState

/-- Whether the unit runs. -/
def isActive (s : UnitState) : Bool := activeStates.contains s.activeState

/-- Whether the unit cannot be disabled. -/
def isFixed (s : UnitState) : Bool := fixedFileStates.contains s.fileState

/-- A unit state as an object. -/
def toJson (s : UnitState) : Json :=
  .object [("load_state", .string s.loadState), ("active_state", .string s.activeState),
    ("file_state", .string s.fileState)]

end UnitState

end Provision
