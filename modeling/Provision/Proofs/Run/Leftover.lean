import Mathlib.Data.List.Nodup
import Provision.Run.Orchestrator

/-!
# What a log says is left to undo

A step is left to undo if the last that the log says of it is that it was applied or
could not be rolled back. With one name for each step, a run adds a change where it
records one, and takes it away where it records that it was undone.

* `held_eq`: what is left to undo is what was made of the steps that are held.
* `Recorded`: the log says that some changes are left to undo, and names none of the steps
  that are still to come.
* `Recorded.applied`, `rolledBack`, `rollbackFailed`, `noted`: what recording a result makes of it.
-/

namespace Provision

/-- The change that an entry says was made. -/
def LogEntry.made? (e : LogEntry) : Option Orchestrator.Made :=
  match e.result with
  | .applied change => some ⟨e.step, e.action, change⟩
  | _ => none

/-- Whether a step of which this is the last result has to be undone. -/
def StepResult.holds : StepResult → Bool
  | applied _ | rollbackFailed _ => true
  | pending | failed _ | rolledBack | skipped => false

theorem RunLog.isHeld_push (log : RunLog) (e : LogEntry) (id : String) :
    (log.push e).isHeld id = if e.step = id then e.result.holds else log.isHeld id := by
  unfold isHeld lastResult? push
  rw [List.reverse_append, List.reverse_singleton, List.singleton_append, List.find?_cons]
  by_cases he : e.step = id
  · rw [if_pos he]
    simp only [he, decide_true, Option.map_some]
    cases e.result <;> rfl
  · rw [if_neg he]
    simp only [he, decide_false]

namespace Orchestrator

/-- The changes that a log says are left to undo, but for a step in flight. -/
def held (log : RunLog) : List Made := log.outstanding.map fun e => ⟨e.step, e.action, e.change⟩

theorem leftover_eq (log : RunLog) : leftover log =
    held log ++ (log.inFlight.map fun f => ⟨f.step, some f.action, f.action.assumedChange⟩).toList :=
  rfl

theorem mem_leftover {log : RunLog} {m : Made} : m ∈ leftover log ↔
    m ∈ held log ∨ ∃ f, log.inFlight = some f ∧ m = ⟨f.step, some f.action, f.action.assumedChange⟩ := by
  rw [leftover_eq, List.mem_append, Option.mem_toList, Option.map_eq_some_iff]
  simp only [eq_comm]

theorem leftover_of_inFlight {log : RunLog} (h : log.inFlight = none) : leftover log = held log := by
  rw [leftover_eq, h]; simp

/-- What is left to undo is what was made of the steps that are held. -/
theorem held_eq (log : RunLog) :
    held log = (log.entries.filterMap LogEntry.made?).filter fun m => log.isHeld m.step := by
  unfold held RunLog.outstanding
  generalize hheld : log.isHeld = isHeld
  induction log.entries with
  | nil => rfl
  | cons e rest ih =>
    obtain ⟨step, result, action, recorded⟩ := e
    by_cases hstep : isHeld step = true
    · cases result <;> simpa [hstep, List.filterMap_cons, LogEntry.made?] using ih
    · cases result <;> simpa [hstep, List.filterMap_cons, LogEntry.made?] using ih

/-- Only the entries of a log say what is left to undo. -/
theorem held_congr {log log' : RunLog} (h : log'.entries = log.entries) : held log' = held log := by
  unfold held RunLog.outstanding RunLog.isHeld RunLog.lastResult?
  rw [h]

/-- A change that an entry says was made is one of its step. -/
theorem step_of_made? {e : LogEntry} {m : Made} (h : e.made? = some m) : e.step = m.step := by
  obtain ⟨step, result, action, recorded⟩ := e
  cases result <;> cases h
  rfl

/-- What is left to undo was recorded. -/
theorem exists_entry_of_mem_held {log : RunLog} {m : Made} (h : m ∈ held log) :
    log.isHeld m.step = true ∧ ∃ e ∈ log.entries, e.step = m.step := by
  rw [held_eq, List.mem_filter, List.mem_filterMap] at h
  obtain ⟨⟨e, he, hm⟩, hheld⟩ := h
  exact ⟨hheld, e, he, step_of_made? hm⟩

/-! ### What recording a result makes of it -/

theorem held_push (log : RunLog) (e : LogEntry) : held (log.push e) =
    (log.entries.filterMap LogEntry.made? ++ e.made?.toList).filter
      fun m => if e.step = m.step then e.result.holds else log.isHeld m.step := by
  rw [held_eq]
  simp only [RunLog.isHeld_push]
  rw [RunLog.push, List.filterMap_append]
  rfl

/-- Where a step is recorded for the first time, only its own change is added. -/
theorem held_push_fresh {log : RunLog} {e : LogEntry} (h : ∀ e' ∈ log.entries, e'.step ≠ e.step) :
    held (log.push e) = held log ++ e.made?.toList.filter fun _ => e.result.holds := by
  rw [held_push, List.filter_append, held_eq]
  congr 1
  -- no earlier entry names the step
  · refine List.filter_congr fun m hm => ?_
    obtain ⟨e', he', hm'⟩ := List.mem_filterMap.1 hm
    rw [if_neg]
    exact fun heq => h e' he' ((step_of_made? hm').trans heq.symm)
  · refine List.filter_congr fun m hm => ?_
    rw [if_pos (step_of_made? (by simpa using hm))]

/-- Once a step was undone, nothing is left of it to undo. -/
theorem held_push_rolledBack (log : RunLog) (id : String) (action : Option StepAction) (now : String) :
    held (log.push ⟨id, .rolledBack, action, now⟩) = (held log).filter fun m => m.step ≠ id := by
  rw [held_push, held_eq, List.filter_filter]
  simp only [LogEntry.made?, Option.toList_none, List.append_nil]
  refine List.filter_congr fun m _ => ?_
  by_cases heq : id = m.step
  · simp [heq, StepResult.holds]
  · simp [heq, Ne.symm heq]

/-- A step that is held and could not be undone is held still. -/
theorem held_push_rollbackFailed {log : RunLog} {id : String} (h : log.isHeld id = true) (f : Failure)
    (action : Option StepAction) (now : String) :
    held (log.push ⟨id, .rollbackFailed f, action, now⟩) = held log := by
  rw [held_push, held_eq]
  simp only [LogEntry.made?, Option.toList_none, List.append_nil]
  refine List.filter_congr fun m _ => ?_
  by_cases heq : id = m.step
  · rw [if_pos heq, ← heq, h]; rfl
  · rw [if_neg heq]

/-- The log says that `made` is left to undo, and names none of the steps of `rest`. -/
structure Recorded (rest : List Step) (log : RunLog) (made : List Made) : Prop where
  held_eq : held log = made
  fresh : ∀ e ∈ log.entries, e.step ∉ rest.map (·.id)
  distinct : (rest.map (·.id)).Nodup
  once : (made.map (·.step)).Nodup

namespace Recorded

variable {rest : List Step} {step : Step} {log : RunLog} {made front later : List Made} {m : Made}
  {now : String}

/-- Only the entries of a log matter. -/
theorem congr {log' : RunLog} (h : Recorded rest log made) (he : log'.entries = log.entries) :
    Recorded rest log' made where
  held_eq := (held_congr he).trans h.held_eq
  fresh := by
    rw [he]
    exact h.fresh
  distinct := h.distinct
  once := h.once

/-- No step that is still to come has been recorded. -/
theorem fresh_of_cons (h : Recorded (step :: rest) log made) : ∀ e ∈ log.entries, e.step ≠ step.id := by
  intro e he hstep
  exact h.fresh e he (by rw [hstep]; exact List.mem_cons_self)

theorem fresh_push (h : Recorded (step :: rest) log made) {e : LogEntry} (he : e.step = step.id) :
    ∀ e' ∈ (log.push e).entries, e'.step ∉ rest.map (·.id) := by
  intro e' he'
  rcases List.mem_append.1 he' with he' | he'
  · exact fun hmem => h.fresh e' he' (List.mem_cons_of_mem _ hmem)
  · rw [List.mem_singleton] at he'
    rw [he', he]
    exact (List.nodup_cons.1 h.distinct).1

theorem held_push_cons (h : Recorded (step :: rest) log made) {e : LogEntry} (he : e.step = step.id) :
    held (log.push e) = made ++ e.made?.toList.filter fun _ => e.result.holds := by
  rw [held_push_fresh (by rw [he]; exact h.fresh_of_cons), h.held_eq]

theorem not_mem_rest (h : Recorded rest log made) (hm : m ∈ made) : m.step ∉ rest.map (·.id) := by
  rw [← h.held_eq] at hm
  obtain ⟨-, e, he, hstep⟩ := exists_entry_of_mem_held hm
  rw [← hstep]
  exact h.fresh e he

/-- A step that was not applied adds nothing. -/
theorem noted (h : Recorded (step :: rest) log made) {result : StepResult}
    (hresult : result.holds = false) (action : Option StepAction) (now : String) :
    Recorded rest (log.push ⟨step.id, result, action, now⟩) made where
  held_eq := by
    rw [h.held_push_cons rfl]
    simp [hresult]
  fresh := h.fresh_push rfl
  distinct := (List.nodup_cons.1 h.distinct).2
  once := h.once

/-- A step that was applied adds its change. -/
theorem applied (h : Recorded (step :: rest) log made) (change : Change) (now : String) :
    Recorded rest (log.push ⟨step.id, .applied change, some step.action, now⟩)
      (made ++ [⟨step.id, some step.action, change⟩]) where
  held_eq := by
    rw [h.held_push_cons rfl]
    rfl
  fresh := h.fresh_push rfl
  distinct := (List.nodup_cons.1 h.distinct).2
  once := by
    rw [List.map_append, List.nodup_append]
    refine ⟨h.once, by simp, ?_⟩
    intro id hid id' hid' heq
    obtain ⟨m, hm, rfl⟩ := List.mem_map.1 hid
    obtain rfl : id' = step.id := by simpa using hid'
    exact h.not_mem_rest hm (by rw [heq]; exact List.mem_cons_self)

theorem fresh_push_of_mem (h : Recorded rest log made) {e : LogEntry} (hm : m ∈ made)
    (he : e.step = m.step) : ∀ e' ∈ (log.push e).entries, e'.step ∉ rest.map (·.id) := by
  intro e' he'
  rcases List.mem_append.1 he' with he' | he'
  · exact h.fresh e' he'
  · rw [List.mem_singleton] at he'
    rw [he', he]
    exact h.not_mem_rest hm

/-- A change that was undone is not left to undo. -/
theorem rolledBack (h : Recorded rest log (front ++ m :: later)) (now : String) :
    Recorded rest (log.push ⟨m.step, .rolledBack, m.action, now⟩) (front ++ later) := by
  have hm : m ∈ front ++ m :: later := by simp
  have honce := h.once
  rw [List.map_append, List.map_cons, List.nodup_middle, List.nodup_cons, ← List.map_append] at honce
  have hne : ∀ m' ∈ front ++ later, m'.step ≠ m.step := fun m' hm' heq =>
    honce.1 (heq ▸ List.mem_map_of_mem hm')
  refine ⟨?_, h.fresh_push_of_mem hm rfl, h.distinct, honce.2⟩
  -- the last result of the step is now that it was rolled back, so all of its changes go
  rw [held_push_rolledBack, h.held_eq, List.filter_append, List.filter_cons, if_neg (by simp),
    ← List.filter_append]
  exact List.filter_eq_self.2 fun m' hm' => by simpa using hne m' hm'

/-- A change that could not be undone is left to undo still. -/
theorem rollbackFailed (h : Recorded rest log made) (hm : m ∈ made) (f : Failure) (now : String) :
    Recorded rest (log.push ⟨m.step, .rollbackFailed f, m.action, now⟩) made := by
  refine ⟨?_, h.fresh_push_of_mem hm rfl, h.distinct, h.once⟩
  -- the step was held before, and is held with its new last result
  have hheld : log.isHeld m.step = true := by
    rw [← h.held_eq] at hm
    exact (exists_entry_of_mem_held hm).1
  rw [held_push_rollbackFailed hheld, h.held_eq]

end Recorded

end Orchestrator

end Provision
