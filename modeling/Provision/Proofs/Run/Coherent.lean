import Provision.Proofs.Run.Leftover
import Provision.Proofs.Run.Rules

/-!
# Logs that hold together

What is outstanding is worked out from the last result of each step. In the logs of a run
it is what one would read off the entries from front to back: what was made, and not undone
since.

* `standing`: what entries say was made, and not undone since.
* `RunLog.Coherent`: a log in which that is what is outstanding, no step is left to undo
  twice, and none that was undone.
* `Coherent.marked`, `applied`, `noted`, `rolledBack`, `rollbackFailed`: **every change that
  is made to the log of a run keeps it so**.
-/

namespace Provision

open Orchestrator

/-- Whether an entry says that a step was undone. -/
def LogEntry.takesBack (e : LogEntry) (id : String) : Bool := e.step = id && e.result = .rolledBack

namespace Orchestrator

/-- The changes that entries say were made, and not undone since, in order. -/
def standing : List LogEntry → List Made
  | [] => []
  | e :: later =>
    match e.made? with
    | some m => if later.any (·.takesBack m.step) then standing later else m :: standing later
    | none => standing later

/-- One more entry takes away what it says was undone, and adds what it says was made. -/
theorem standing_concat (entries : List LogEntry) (e : LogEntry) :
    standing (entries ++ [e]) =
      (standing entries).filter (fun m => !e.takesBack m.step) ++ e.made?.toList := by
  induction entries with
  | nil => cases h : e.made? <;> simp [standing, h]
  | cons e' later ih =>
    cases h : e'.made? with
    | none => simp only [List.cons_append, standing, h, ih]
    | some m =>
      simp only [List.cons_append, standing, h, ih, List.any_append, List.any_cons, List.any_nil,
        Bool.or_false]
      cases later.any (·.takesBack m.step) <;> cases hback : e.takesBack m.step <;>
        simp [hback]

/-- What stands was made by an entry. -/
theorem exists_entry_of_mem_standing {entries : List LogEntry} {m : Made} (h : m ∈ standing entries) :
    ∃ e ∈ entries, e.made? = some m := by
  induction entries with
  | nil => cases h
  | cons e later ih =>
    have hlater : m ∈ standing later → ∃ e' ∈ e :: later, e'.made? = some m := by
      intro hm
      obtain ⟨e', he', hmade⟩ := ih hm
      exact ⟨e', List.mem_cons_of_mem _ he', hmade⟩
    unfold standing at h
    cases hmade : e.made? with
    | none => rw [hmade] at h; exact hlater h
    | some m' =>
      rw [hmade] at h
      dsimp only at h
      split at h
      · exact hlater h
      · rcases List.mem_cons.1 h with rfl | hm
        · exact ⟨e, List.mem_cons_self, hmade⟩
        · exact hlater hm

/-- What was made stands if nothing says that its step was undone. -/
theorem mem_standing {entries : List LogEntry} {e : LogEntry} {m : Made} (he : e ∈ entries)
    (hm : e.made? = some m) (hback : ∀ e' ∈ entries, e'.takesBack m.step = false) :
    m ∈ standing entries := by
  induction entries with
  | nil => cases he
  | cons e' later ih =>
    have hlater : ∀ e'' ∈ later, e''.takesBack m.step = false := fun e'' h =>
      hback e'' (List.mem_cons_of_mem _ h)
    unfold standing
    rcases List.mem_cons.1 he with rfl | he
    · rw [hm]
      dsimp only
      rw [if_neg (by simpa using hlater)]
      exact List.mem_cons_self
    · have hrest := ih he hlater
      cases e'.made? with
      | none => exact hrest
      | some m' =>
        dsimp only
        split
        · exact hrest
        · exact List.mem_cons_of_mem _ hrest

end Orchestrator

/-- A log that holds together. -/
structure RunLog.Coherent (log : RunLog) : Prop where
  /-- What is outstanding was made and not undone since. -/
  held_eq : held log = standing log.entries
  /-- No step is left to undo twice. -/
  distinct : ((leftover log).map (·.step)).Nodup
  /-- Nothing is recorded of a step in flight. -/
  fresh : ∀ f, log.inFlight = some f → ∀ e ∈ log.entries, e.step ≠ f.step
  /-- It is known how to undo what is left. -/
  known : ∀ m ∈ leftover log, ∃ action, m.action = some action
  /-- No step that was undone is left to undo. -/
  gone : ∀ e ∈ log.entries, e.result = .rolledBack → ∀ m ∈ leftover log, m.step ≠ e.step

namespace RunLog.Coherent

variable {log log' : RunLog} {m m' : Made} {e : LogEntry} {step : Step} {id now since : String}
  {action : Option StepAction} {result : StepResult}

/-- A log in which nothing is recorded holds together. -/
theorem of_nil (hentries : log.entries = []) (hflight : log.inFlight = none) : log.Coherent := by
  have hheld : held log = [] := by rw [Orchestrator.held_eq, hentries]; rfl
  have hleft : leftover log = [] := (leftover_of_inFlight hflight).trans hheld
  refine ⟨?_, ?_, ?_, ?_, ?_⟩
  · rw [hheld, hentries]; rfl
  · rw [hleft]; exact List.nodup_nil
  · rw [hflight]; simp
  · rw [hleft]; simp
  · rw [hentries]; simp

/-- Only the entries of a log and the step in flight matter. -/
theorem congr (h : log.Coherent) (hentries : log'.entries = log.entries)
    (hflight : log'.inFlight = log.inFlight) : log'.Coherent := by
  have hheld : held log' = held log := held_congr hentries
  have hleft : leftover log' = leftover log := by rw [leftover_eq, leftover_eq, hheld, hflight]
  refine ⟨?_, ?_, ?_, ?_, ?_⟩
  · rw [hheld, hentries]; exact h.held_eq
  · rw [hleft]; exact h.distinct
  · rw [hflight, hentries]; exact h.fresh
  · rw [hleft]; exact h.known
  · rw [hleft, hentries]; exact h.gone

/-- With one more step, of which nothing is recorded, the same holds of what is left to
undo. -/
theorem added (h : log.Coherent) (hflight : log.inFlight = none)
    (hfresh : ∀ e ∈ log.entries, e.step ≠ m.step) (hm : ∃ action, m.action = some action) :
    ((leftover log ++ [m]).map (·.step)).Nodup ∧
      (∀ m' ∈ leftover log ++ [m], ∃ action, m'.action = some action) ∧
      ∀ e ∈ log.entries, e.result = .rolledBack → ∀ m' ∈ leftover log ++ [m], m'.step ≠ e.step := by
  have hnew : ∀ m' ∈ leftover log, m'.step ≠ m.step := by
    intro m' hm'
    rw [leftover_of_inFlight hflight] at hm'
    obtain ⟨-, e, he, hstep⟩ := exists_entry_of_mem_held hm'
    exact hstep ▸ hfresh e he
  refine ⟨?_, fun m' hm' => ?_, fun e he hback m' hm' => ?_⟩
  · rw [List.map_append, List.map_singleton, ← List.concat_eq_append]
    refine List.Nodup.concat (fun hmem => ?_) h.distinct
    obtain ⟨m', hm', heq⟩ := List.mem_map.1 hmem
    exact hnew m' hm' heq
  · rcases List.mem_append.1 hm' with hm' | hm'
    · exact h.known m' hm'
    · rw [List.mem_singleton.1 hm']
      exact hm
  · rcases List.mem_append.1 hm' with hm' | hm'
    · exact h.gone e he hback m' hm'
    · rw [List.mem_singleton.1 hm']
      exact Ne.symm (hfresh e he)

/-- **A step goes in flight** of which nothing is recorded. -/
theorem marked (h : log.Coherent) (hflight : log.inFlight = none)
    (hfresh : ∀ e ∈ log.entries, e.step ≠ step.id) (since : String) : (marking log step since).Coherent := by
  have hleft : leftover (marking log step since) =
      leftover log ++ [⟨step.id, some step.action, step.action.assumedChange⟩] := by
    rw [leftover_of_inFlight hflight]; rfl
  obtain ⟨hdistinct, hknown, hgone⟩ :=
    h.added (m := ⟨step.id, some step.action, step.action.assumedChange⟩) hflight hfresh ⟨_, rfl⟩
  refine ⟨h.held_eq, hleft ▸ hdistinct, ?_, hleft ▸ hknown, hleft ▸ hgone⟩
  intro f hf e he
  obtain rfl : (⟨step.id, step.action, since⟩ : InFlight) = f := Option.some.inj hf
  exact hfresh e he

/-- **A step was applied** of which nothing was recorded. -/
theorem applied (h : log.Coherent) (hflight : log.inFlight = none)
    (hfresh : ∀ e ∈ log.entries, e.step ≠ step.id) (change : Change) (now : String) :
    (log.push ⟨step.id, .applied change, some step.action, now⟩).Coherent := by
  have hflight' : (log.push ⟨step.id, .applied change, some step.action, now⟩).inFlight = none := by
    simp [RunLog.push, hflight]
  have hheld : held (log.push ⟨step.id, .applied change, some step.action, now⟩) =
      held log ++ [⟨step.id, some step.action, change⟩] := held_push_fresh hfresh
  have hleft := (leftover_of_inFlight hflight').trans hheld
  rw [← leftover_of_inFlight hflight] at hleft
  obtain ⟨hdistinct, hknown, hgone⟩ :=
    h.added (m := ⟨step.id, some step.action, change⟩) hflight hfresh ⟨_, rfl⟩
  refine ⟨?_, hleft ▸ hdistinct, ?_, hleft ▸ hknown, ?_⟩
  · rw [hheld, h.held_eq, RunLog.push, standing_concat, List.filter_eq_self.2]
    · rfl
    · simp [LogEntry.takesBack]
  · rw [hflight']
    simp
  · intro e he hback
    rcases List.mem_append.1 he with he | he
    · rw [hleft]
      exact hgone e he hback
    · rw [List.mem_singleton.1 he] at hback
      cases hback

/-- What is left to undo of other steps stays as it is. -/
theorem mem_leftover_push (hm : m ∈ leftover log) (hne : m.step ≠ e.step) : m ∈ leftover (log.push e) := by
  rw [mem_leftover] at hm ⊢
  refine hm.imp (fun hm => ?_) fun ⟨f, hf, hm⟩ => ⟨f, ?_, hm⟩
  · rw [Orchestrator.held_eq, List.mem_filter] at hm
    rw [held_push, List.mem_filter, if_neg (Ne.symm hne)]
    exact ⟨List.mem_append_left _ hm.1, hm.2⟩
  · rw [RunLog.push, hf, Option.filter_some, if_pos]
    simpa [hm] using hne

/-- A result that says of no change that it was made takes away what it says was undone, if
that is what becomes of the steps that are held. -/
theorem push (h : log.Coherent) (hmade : e.made? = none)
    (hheld : held (log.push e) = (held log).filter fun m => !e.takesBack m.step) :
    (log.push e).Coherent ∧ (leftover (log.push e)).Sublist (leftover log) := by
  have hflight : ∀ f, (log.push e).inFlight = some f → log.inFlight = some f ∧ f.step ≠ e.step := by
    intro f hf
    obtain ⟨hf, hne⟩ := Option.filter_eq_some_iff.1 hf
    exact ⟨hf, by simpa using hne⟩
  have hsub : (leftover (log.push e)).Sublist (leftover log) := by
    rw [leftover_eq, leftover_eq, hheld]
    refine List.filter_sublist.append ?_
    cases hf : (log.push e).inFlight with
    | none => simp
    | some f => rw [(hflight f hf).1]
  refine ⟨⟨?_, ?_, ?_, ?_, ?_⟩, hsub⟩
  · rw [hheld, h.held_eq, RunLog.push, standing_concat, hmade, Option.toList_none, List.append_nil]
  · exact h.distinct.sublist (hsub.map _)
  · intro f hf e' he'
    obtain ⟨hf, hne⟩ := hflight f hf
    rcases List.mem_append.1 he' with he' | he'
    · exact h.fresh f hf e' he'
    · rw [List.mem_singleton.1 he']
      exact Ne.symm hne
  · exact fun m hm => h.known m (hsub.subset hm)
  · intro e' he' hback m hm
    rcases List.mem_append.1 he' with he' | he'
    · exact h.gone e' he' hback m (hsub.subset hm)
    · obtain rfl := List.mem_singleton.1 he'
      rw [mem_leftover, hheld] at hm
      obtain hm | ⟨f, hf, rfl⟩ := hm
      · have hkept := (List.mem_filter.1 hm).2
        intro heq
        simp [LogEntry.takesBack, hback, heq] at hkept
      · exact (hflight f hf).2

/-- **A step was undone**: nothing is left of it. -/
theorem rolledBack (h : log.Coherent) (id : String) (action : Option StepAction) (now : String) :
    (log.push ⟨id, .rolledBack, action, now⟩).Coherent ∧
      leftover (log.push ⟨id, .rolledBack, action, now⟩) = (leftover log).filter fun m => m.step ≠ id := by
  refine ⟨(h.push rfl ?_).1, ?_⟩
  · rw [held_push_rolledBack]
    refine List.filter_congr fun m _ => ?_
    simp [LogEntry.takesBack, eq_comm]
  · rw [leftover_eq, leftover_eq, held_push_rolledBack, List.filter_append]
    congr 1
    cases hf : log.inFlight with
    | none => simp [RunLog.push, hf]
    | some f => by_cases hid : f.step = id <;> simp [RunLog.push, hf, hid]

/-- **A step could not be undone** that was left to undo: if it was held it is left still, and
if it was in flight it is not. -/
theorem rollbackFailed (h : log.Coherent) (hm : m ∈ leftover log) (f : Failure)
    (action : Option StepAction) (now : String) :
    (log.push ⟨m.step, .rollbackFailed f, action, now⟩).Coherent := by
  have hsame : ∀ l : List Made, l = l.filter fun m' =>
      !(LogEntry.takesBack ⟨m.step, .rollbackFailed f, action, now⟩ m'.step) := by
    intro l
    rw [List.filter_eq_self.2]
    simp [LogEntry.takesBack]
  refine (h.push rfl ((?_ : _ = held log).trans (hsame _))).1
  obtain hm | ⟨g, hg, rfl⟩ := mem_leftover.1 hm
  · exact held_push_rollbackFailed (exists_entry_of_mem_held hm).1 f action now
  · rw [held_push_fresh fun e he => h.fresh g hg e he]
    simp [LogEntry.made?]

/-- **A step is recorded that was not applied**, and of which nothing is recorded. -/
theorem noted (h : log.Coherent) (hfresh : ∀ e ∈ log.entries, e.step ≠ id)
    (hresult : result.holds = false) (hback : result ≠ .rolledBack) (action : Option StepAction)
    (now : String) : (log.push ⟨id, result, action, now⟩).Coherent := by
  have hmade : LogEntry.made? ⟨id, result, action, now⟩ = none := by
    cases result <;> first | rfl | cases hresult
  refine (h.push hmade ?_).1
  rw [held_push_fresh hfresh, hmade, Option.toList_none, List.filter_nil, List.append_nil,
    List.filter_eq_self.2]
  simp [LogEntry.takesBack, hback]

/-- The step in flight is no longer in flight once a result of it is recorded. -/
theorem push_marking (hflight : log.inFlight = none) (step : Step) (since : String)
    (he : e.step = step.id) : (marking log step since).push e = log.push e := by
  simp [marking, RunLog.push, hflight, he]

end RunLog.Coherent

end Provision
