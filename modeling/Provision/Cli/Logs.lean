import Provision.Cli.Context

/-!
# Showing recorded runs

* `Cli.log`: one run, or a line for every run.
-/

namespace Provision.Cli

/-- A line of the table of runs. -/
def tableRow (run status steps started : String) : String :=
  Text.padRight 28 run ++ " " ++ Text.padRight 22 status ++ " " ++ Text.padLeft 5 steps ++ "  " ++
    started

/-- The table of runs. -/
def tableLines : List RunLog → List String
  | [] => ["no runs recorded."]
  | logs =>
    tableRow "RUN" "STATUS" "STEPS" "STARTED" :: logs.map fun log =>
      tableRow log.runId log.status.describe (toString log.plan.length) log.startedAt

/-- A run in short, as an object. -/
def summary (log : RunLog) : Json :=
  .object [("run_id", .string log.runId), ("status", log.status.toJson),
    ("started_at", .string log.startedAt), ("finished_at", .orNull (log.finishedAt.map .string)),
    ("steps", .int log.plan.length), ("failed_step", .orNull (log.failure.map (.string ·.step)))]

/-- One run in lines. -/
def logLines (log : RunLog) : List String :=
  ["run:      " ++ log.runId, "status:   " ++ log.status.describe,
    "started:  " ++ log.startedAt] ++
  (log.finishedAt.map ("finished: " ++ ·)).toList ++
  ["plan:     " ++ " -> ".intercalate log.plan] ++
  (log.failure.map fun f => "failed:   " ++ f.step ++ " (" ++ f.failure.describe ++ ")").toList ++
  (log.inFlight.map fun f => "in flight: " ++ f.step ++ " since " ++ f.since ++
    " (treated as applied on rollback)").toList ++
  "" :: log.entries.map (fun e => "  " ++ e.recorded ++ "  " ++ e.describe) ++
  match log.outstanding.map (·.step) with
  | [] => []
  | steps => ["", toString steps.length ++ " step(s) still applied: " ++ ", ".intercalate steps]

/-- Show one run, or a line for every run. -/
def log (c : Context) : Option String → Commanding Output
  | some id => do
    let log ← settled (.run ∘ .store) (Store.load c.layout id).run
    return if c.json then .ofJson .success log.toJson else .ofLines .success (logLines log)
  | none => do
    let logs ← settled (.run ∘ .store) (Store.list c.layout).run
    return if c.json then .ofJson .success (.array (logs.map (summary · |>.sorted)))
      else .ofLines .success (tableLines logs)

end Provision.Cli
