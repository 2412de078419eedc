import Provision.Action.PreviewCodec
import Provision.Cli.Context

/-!
# Commands that carry out plans

* `Cli.run`: carry out a plan, or only show what would be done.
* `Cli.plan`: show what would be done.
* `Cli.rollback`: roll back a recorded run.
* `Cli.reportOutput`, `Cli.previewOutput`: what is written.
-/

namespace Provision.Cli

/-- A report in lines. -/
def reportLines (r : RunReport) : List String :=
  ("run " ++ r.runId ++ ": " ++ r.status.describe) :: r.trail.map ("  " ++ ·) ++
    failed ++ rolledBack
where
  /-- The step that stopped the run. -/
  failed : List String :=
    match r.failedStep, r.failure with
    | some step, some failure => ["failed step: " ++ step ++ " (" ++ failure.describe ++ ")"]
    | _, _ => []
  /-- Whether anything is left to be rolled back. -/
  rolledBack : List String :=
    if r.status = .completed then []
    else if r.rollbackClean then ["rollback: complete"]
    else ["rollback: incomplete, retry with '" ++ programName ++ " rollback " ++ r.runId ++ "'"]

/-- What is written of a run or a rollback. -/
def reportOutput (json : Bool) (exit : Exit) (r : RunReport) : Output :=
  if json then .ofJson exit r.toJson else .ofLines exit (reportLines r)

/-- The steps that are certain to fail. -/
def blocking (previews : List StepPreview) : List String :=
  (previews.filter (·.isBlocking)).map (·.step)

/-- Previews in lines, with their numbers. -/
def previewLines (previews : List StepPreview) : List String :=
  previews.zipIdx.map (fun (p, n) => Text.padLeft 3 (toString (n + 1)) ++ ". " ++ p.describe) ++
    match blocking previews with
    | [] => []
    | steps => ["", toString steps.length ++ " step(s) would fail: " ++ ", ".intercalate steps]

/-- Previews as one object. -/
def previewsToJson (previews : List StepPreview) : Json :=
  .object [("steps", .array (previews.map StepPreview.toJson)),
    ("blocking", .strings (blocking previews))]

/-- What is written of what would be done. -/
def previewOutput (json : Bool) (previews : List StepPreview) : Output :=
  let exit := if blocking previews = [] then .success else .failure
  if json then .ofJson exit (previewsToJson previews).sorted
  else .ofLines exit (previewLines previews)

/-- Show what would be done. -/
def showPreviews (c : Context) (backend : Backend) (registry : Registry) (skip : List String) :
    Commanding Output := do
  return previewOutput c.json (← c.carryOut backend (Orchestrator.preview registry skip))

/-- Carry out a plan, or only show what would be done. -/
def run (c : Context) (file : Path) (skip : List String) (dryRun : Bool) : Commanding Output := do
  let registry ← loadRegistry file
  let backend ← decided .backend c.backend
  if dryRun then showPreviews c backend registry skip
  else
    let report ← c.carryOut backend (c.orchestrator.run registry skip)
    return reportOutput c.json (.ofStatus report.status) report

/-- Show what a plan would do. -/
def plan (c : Context) (file : Path) : Commanding Output := do
  let registry ← loadRegistry file
  let backend ← decided .backend c.backend
  showPreviews c backend registry []

/-- Roll back a recorded run, or the most recent one. -/
def rollback (c : Context) (id : Option String) : Commanding Output := do
  let backend ← decided .backend c.backend
  let report ← c.carryOut backend (c.orchestrator.rollbackRun id)
  return reportOutput c.json (if report.rollbackClean then .success else .failure) report

end Provision.Cli
