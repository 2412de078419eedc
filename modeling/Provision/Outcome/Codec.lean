import Provision.Outcome
import Provision.Json.Decode

/-!
# Outcomes as JSON

A change is an object tagged with its kind; a result is an object with its name
as `state` and, where it has one, its content as `detail`.

* `Change.toJson`, `Change.ofJson`.
* `Failure.toJson`, `Failure.ofJson`.
* `StepResult.toJson`, `StepResult.ofJson`.
-/

namespace Provision

open Json

namespace Change

/-- A change as an object. -/
def toJson : Change → Json
  | mount mounted => .object [("kind", .string "mount"), ("mounted", .bool mounted)]
  | service ops => .object [("kind", .string "service"), ("ops", .strings (ops.map UnitOp.name))]

/-- A change from an object. -/
def ofJson (buffered : Bool) (j : Json) : Except Fault Change := do
  let (tag, rest) ← tagged "kind" j
  let isMount ← tagName buffered [("mount", true), ("service", false)] tag
  if isMount then mount <$> required "mounted" asBool (← record ["mounted"] rest)
  else service <$> required "ops" (asList (choice true UnitOp.byName)) (← record ["ops"] rest)

end Change

namespace Failure

/-- A failure as an object. -/
def toJson (f : Failure) : Json :=
  .object [("kind", .string f.kind.name), ("message", .string f.text)]

/-- A failure from an object. -/
def ofJson (buffered : Bool) (j : Json) : Except Fault Failure := do
  let r ← record ["kind", "message"] j
  return {
    kind := ← required "kind" (choice buffered FailureKind.byName) r
    text := ← required "message" asString r }

end Failure

namespace StepResult

/-- The content of a result, when it has one. -/
def detail? : StepResult → Option Json
  | applied change => some change.toJson
  | failed failure | rollbackFailed failure => some failure.toJson
  | _ => none

/-- A result as an object. -/
def toJson (r : StepResult) : Json :=
  .object (("state", .string r.label) :: member? "detail" r.detail?)

/-- How a result is taken from its content: without one, or with one of a
type. -/
inductive Shape where
  | plain (r : StepResult)
  | change (r : Change → StepResult)
  | failure (r : Failure → StepResult)

/-- The shapes by the names of the results. -/
def shapes : List (String × Shape) :=
  [("Pending", .plain pending), ("Applied", .change applied), ("Failed", .failure failed),
    ("RolledBack", .plain rolledBack), ("RollbackFailed", .failure rollbackFailed),
    ("Skipped", .plain skipped)]

/-- A result from its shape and content. -/
def ofDetail (buffered : Bool) : Shape → Option Json → Except Fault StepResult
  | .plain r, none | .plain r, some .null => .ok r
  | .plain _, some _ => .error (.mismatch "null")
  | .change _, none | .failure _, none => .error (.missing "detail")
  | .change r, some j => r <$> Change.ofJson buffered j
  | .failure r, some j => r <$> Failure.ofJson buffered j

/-- A result from an object. Content that comes before the name is buffered. -/
def ofJson (j : Json) : Except Fault StepResult := do
  let r ← record ["state", "detail"] j
  let shape ← required "state" (choice false shapes) r
  let detail := r.lookup "detail"
  let buffered := r.head?.any (·.1 = "detail")
  if buffered ∧ detail.any (!·.isReadable) then .error (.mismatch "a value")
  else
    match j, detail with
    | .array _, none => .error (.missing "detail")
    | _, _ => ofDetail buffered shape detail

end StepResult

end Provision
