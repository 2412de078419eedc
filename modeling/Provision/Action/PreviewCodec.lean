import Provision.Action.Codec
import Provision.Action.Preview

/-!
# Previews as JSON

A preview is one object: the step, its action, and what would be done of it.

* `StepPreview.toJson`.
-/

namespace Provision

/-- What applying a step would do, as fields. -/
def PreviewOutcome.fields : PreviewOutcome → List (String × Json)
  | wouldMount => [("outcome", .string "would_mount")]
  | alreadyMounted => [("outcome", .string "already_mounted")]
  | conflict observed => [("outcome", .string "conflict"), ("observed", .string observed)]
  | wouldIssue ops reloadManager =>
    [("outcome", .string "would_issue"), ("ops", .strings (ops.map UnitOp.name)),
      ("daemon_reload", .bool reloadManager)]
  | inDesiredState => [("outcome", .string "in_desired_state")]
  | skipped => [("outcome", .string "skipped")]
  | unknown error => [("outcome", .string "unknown"), ("error", .string error)]

/-- A preview as an object. -/
def StepPreview.toJson (p : StepPreview) : Json :=
  .object <| [("step", .string p.step), ("action", p.action.toJson)] ++ p.outcome.fields

end Provision
