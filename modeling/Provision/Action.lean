import Provision.Path
import Provision.Text.Blank
import Provision.UnitOp

/-!
# Actions

What a step does to the host: mount a file system, or bring a unit to a desired
state.

* `MountSpec`: a file system that must be mounted at its target.
* `UnitName.normalize`: the full name of a unit, which may be named without its type.
* `ServiceUnit`: the desired state of a unit; what is unset is left as found.
* `StepAction`, `Step`: an action, and an action with a name and with the steps
  it must follow.
-/

namespace Provision

/-- A file system that must be mounted at `target`. -/
structure MountSpec where
  source : String
  target : Path
  fstype : String
  options : List String := []
deriving DecidableEq, Inhabited, Repr

namespace MountSpec

/-- Bind mounts show a part of the tree at a second place. -/
def isBind (spec : MountSpec) : Bool := spec.options.any fun o => o = "bind" || o = "rbind"

/-- The options as they are given to mount(8). -/
def optionsText (spec : MountSpec) : String :=
  if spec.options = [] then "defaults" else ",".intercalate spec.options

/-- The file system in words. -/
def describe (spec : MountSpec) : String :=
  spec.source ++ " on " ++ spec.target.text ++ " type " ++ spec.fstype ++ " (" ++
    spec.optionsText ++ ")"

end MountSpec

/-- How a unit that is running picks up new configuration. -/
inductive Refresh where
  | reload
  | restart
deriving DecidableEq, Inhabited, Repr

namespace Refresh

/-- The operation that refreshes. -/
def op : Refresh → UnitOp
  | reload => .reload
  | restart => .restart

/-- The state of a unit after it. -/
def participle : Refresh → String
  | reload => "reloaded"
  | restart => "restarted"

/-- Every refresh with its name. -/
def byName : List (String × Refresh) := [reload, restart].map fun r => (r.op.name, r)

end Refresh

namespace UnitName

/-- What the full name of a unit ends with. -/
def suffixes : List String :=
  [".service", ".socket", ".target", ".mount", ".automount", ".timer", ".path", ".slice",
    ".scope", ".swap", ".device"]

/-- Whether a name says the type of its unit. -/
def hasSuffix (name : List Char) : Bool := suffixes.any fun s => s.toList.isSuffixOf name

/-- The full name of a unit: without blanks at the ends, and a service unless it
says otherwise. -/
def normalize (name : String) : String :=
  let bare := Text.trimChars name.toList
  .ofList (if hasSuffix bare then bare else bare ++ ".service".toList)

end UnitName

/-- The desired state of a unit; a field that is `none` is left as found. -/
structure ServiceUnit where
  name : String
  enabled : Option Bool := none
  active : Option Bool := none
  reloadManager : Bool := false
  refresh : Option Refresh := none
deriving DecidableEq, Inhabited, Repr

namespace ServiceUnit

/-- The full name of the unit. -/
def unitName (unit : ServiceUnit) : String := UnitName.normalize unit.name

/-- What is asked of the unit, in words. -/
def wants (unit : ServiceUnit) : List String :=
  (unit.enabled.map (if · then "enabled" else "disabled")).toList ++
    (unit.active.map (if · then "active" else "inactive")).toList ++
    (unit.refresh.map Refresh.participle).toList

/-- The unit and what is asked of it, in words. -/
def describe (unit : ServiceUnit) : String :=
  match unit.wants with
  | [] => unit.unitName
  | wants => unit.unitName ++ " (" ++ ", ".intercalate wants ++ ")"

end ServiceUnit

/-- What a step does to the host. -/
inductive StepAction where
  | mount (spec : MountSpec)
  | service (unit : ServiceUnit)
deriving DecidableEq, Inhabited, Repr

namespace StepAction

/-- The name of the kind of action. -/
def kind : StepAction → String
  | mount _ => "mount"
  | service _ => "service"

/-- The action in words. -/
def describe : StepAction → String
  | mount spec => "mount " ++ spec.describe
  | service unit => "service " ++ unit.describe

/-- The place an action mounts a file system at. -/
def mountTarget? : StepAction → Option Path
  | mount spec => some spec.target
  | service _ => none

end StepAction

/-- A named unit of work, and the steps it must follow. -/
structure Step where
  id : String
  dependsOn : List String := []
  action : StepAction
deriving DecidableEq, Inhabited, Repr

end Provision
