import Provision.Plan.File
import Provision.Text.Blank
import Provision.Toml.Decode
import Provision.Toml.Reader

/-!
# Plan files as TOML

A plan is a table with one table a step. A key that a step of its kind does not
know is an error before anything else is looked at, so that no desired state is
dropped silently.

* `PlanFile.toToml`, `PlanFile.ofToml`: the table of a plan.
* `PlanFile.checkKeys`: the keys of the steps.
* `PlanFile.parse`: the plan of a text.
-/

namespace Provision

open Toml

/-- An array of strings. -/
def Toml.strings (items : List String) : Toml := .array (items.map .string)

/-- A key that is left out when its value is absent. -/
def Toml.entry? (key : String) (value : Option Toml) : List (String × Toml) :=
  match value with
  | some v => [(key, v)]
  | none => []

namespace StepAction

/-- The keys of an action in a step table. -/
def entries : StepAction → List (String × Toml)
  | mount spec =>
    [("source", .string spec.source), ("target", .string spec.target.text),
      ("fstype", .string spec.fstype), ("options", strings spec.options)]
  | service unit =>
    ("unit", .string unit.name) :: entry? "enabled" (unit.enabled.map .bool) ++
      entry? "active" (unit.active.map .bool) ++ [("daemon_reload", .bool unit.reloadManager)] ++
      entry? "refresh" (unit.refresh.map (.string ·.op.name))

/-- The action of a step table. -/
def ofEntries (entries : List (String × Toml)) : Except Fault StepAction := do
  let isMount ← required "kind" (asName [("mount", true), ("service", false)]) entries
  if isMount then
    return mount {
      source := ← required "source" asText entries
      target := Path.mk (← required "target" asText entries)
      fstype := ← required "fstype" asText entries
      options := ← withDefault "options" [] (asList asText) entries }
  else
    return service {
      name := ← required "unit" asText entries
      enabled := ← optional "enabled" asBool entries
      active := ← optional "active" asBool entries
      reloadManager := ← withDefault "daemon_reload" false asBool entries
      refresh := ← optional "refresh" (asChoice Refresh.byName) entries }

end StepAction

namespace Step

/-- The table of a step. -/
def toToml (step : Step) : Toml :=
  .table <| [("id", .string step.id), ("kind", .string step.action.kind),
    ("depends_on", strings step.dependsOn)] ++ step.action.entries

/-- The step of a table. -/
def ofToml (v : Toml) : Except Fault Step := do
  let entries ← asTable v
  return {
    id := ← required "id" asText entries
    dependsOn := ← withDefault "depends_on" [] (asList asText) entries
    action := ← StepAction.ofEntries entries }

/-- The keys that every step may have. -/
def commonKeys : List String := ["id", "kind", "depends_on"]

/-- The keys that a step of some kind may have beside these. -/
def keysOfKind : List (String × List String) :=
  [("mount", ["source", "target", "fstype", "options"]),
    ("service", ["unit", "enabled", "active", "daemon_reload", "refresh"])]

/-- The keys of a step table that its kind does not know. A table without a
known kind is left for the decoder to report. -/
def unknownKeys (v : Toml) : List String :=
  match v, (v.lookup? "kind").bind text? with
  | .table entries, some kind =>
    match keysOfKind.lookup kind with
    | some keys => (entries.map (·.1)).filter fun k => !(commonKeys ++ keys).contains k
    | none => []
  | _, _ => []

/-- Complain about the first unknown key of a step table, by alphabet. -/
def checkKeys (v : Toml) : Except PlanError Unit :=
  match Text.least? (unknownKeys v) with
  | none => .ok ()
  | some key => .error (.unknownStepKey (((v.lookup? "id").bind text?).getD "<unnamed>") key)

end Step

namespace PlanFile

/-- The table of a plan. -/
def entries (plan : PlanFile) : List (String × Toml) :=
  [("plan_version", .int plan.version)] ++
    entry? "description" (plan.description.map .string) ++
    [("step", .array (plan.steps.map Step.toToml))]

/-- Complain about the first unknown key of a step. -/
def checkKeys (entries : List (String × Toml)) : Except PlanError Unit :=
  match entries.lookup "step" with
  | some (.array steps) => steps.forM Step.checkKeys
  | _ => .ok ()

/-- The plan of a table. -/
def ofEntries (entries : List (String × Toml)) : Except Fault PlanFile := do
  closed ["plan_version", "description", "step"] entries
  return {
    version := ← required "plan_version" (asNatBelow UInt32.size) entries
    description := ← optional "description" asText entries
    steps := ← withDefault "step" [] (asList Step.ofToml) entries }

/-- The valid plan of a table. -/
def decode (entries : List (String × Toml)) : Except PlanError PlanFile := do
  checkKeys entries
  let plan ← (ofEntries entries).mapError .malformed
  plan.validate
  return plan

/-- The valid plan of a text. -/
def parse (text : String) : Except PlanError PlanFile := do
  decode (← (Toml.parse text).mapError .malformed)

end PlanFile

end Provision
