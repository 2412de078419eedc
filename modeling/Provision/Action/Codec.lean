import Provision.Action
import Provision.Json.Decode

/-!
# Actions as JSON

An action is an object tagged with its kind; unset fields of a unit are left
out.

* `StepAction.toJson`, `StepAction.ofJson`: one action.
-/

namespace Provision

open Json

/-- The fields of a mounted file system. -/
def MountSpec.fields (spec : MountSpec) : List (String × Json) :=
  [("source", .string spec.source), ("target", .string spec.target.text),
    ("fstype", .string spec.fstype), ("options", .strings spec.options)]

/-- A path, as its text. -/
def Path.ofJson (j : Json) : Except Fault Path := Path.mk <$> asString j

/-- A file system from its fields. -/
def MountSpec.ofJson (j : Json) : Except Fault MountSpec := do
  let r ← record ["source", "target", "fstype", "options"] j
  return {
    source := ← required "source" asString r
    target := ← required "target" Path.ofJson r
    fstype := ← required "fstype" asString r
    options := ← withDefault "options" [] (asList asString) r }

/-- The fields of the desired state of a unit; what is unset is left out. -/
def ServiceUnit.fields (unit : ServiceUnit) : List (String × Json) :=
  ("unit", .string unit.name) :: member? "enabled" (unit.enabled.map .bool) ++
    member? "active" (unit.active.map .bool) ++ [("daemon_reload", .bool unit.reloadManager)] ++
    member? "refresh" (unit.refresh.map (.string ·.op.name))

/-- The desired state of a unit from its fields. -/
def ServiceUnit.ofJson (buffered : Bool) (j : Json) : Except Fault ServiceUnit := do
  let r ← record ["unit", "enabled", "active", "daemon_reload", "refresh"] j
  return {
    name := ← required "unit" asString r
    enabled := ← optional "enabled" asBool r
    active := ← optional "active" asBool r
    reloadManager := ← withDefault "daemon_reload" false asBool r
    refresh := ← optional "refresh" (choice buffered Refresh.byName) r }

namespace StepAction

/-- The fields of an action. -/
def fields : StepAction → List (String × Json)
  | mount spec => ("kind", .string "mount") :: spec.fields
  | service unit => ("kind", .string "service") :: unit.fields

/-- An action as an object. -/
def toJson (a : StepAction) : Json := .object a.fields

/-- An action from an object. -/
def ofJson (buffered : Bool) (j : Json) : Except Fault StepAction := do
  let (tag, rest) ← tagged "kind" j
  let isMount ← tagName buffered [("mount", true), ("service", false)] tag
  if isMount then mount <$> MountSpec.ofJson rest else service <$> ServiceUnit.ofJson true rest

end StepAction

end Provision
