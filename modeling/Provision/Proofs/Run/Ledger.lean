import Provision.Proofs.Action.Results
import Provision.Proofs.Mock.Stage
import Provision.Proofs.Run.Leftover
import Provision.Proofs.Run.Plan

/-!
# Keeping the log and the host together

What a run keeps between the changes it has made and something of the host it keeps
between the log on disk and the host, at every point where it may be stopped.

* `Ledger`: changes track something of the host: applying an action and undoing a change
  keep it so, and in between the changes cover it at least.
* `Poised`, `Unwinding`: the invariants of the two halves of a run.
* `Ledger.ensures_run`: **the log on disk covers the host at every point of a run, and
  where a run was aborted what could not be undone is left in the log**.
* `Ledger.undone`, `undone_or_left`: what that comes to where a run was aborted.
-/

namespace Provision

open Script Orchestrator

/-- A change that was made is one that its action can make. -/
def Orchestrator.Made.Fits (m : Made) : Prop := ∃ action, m.action = some action ∧ action.Fits m.change

theorem Orchestrator.fits_assumedChange (id : String) (action : StepAction) :
    Made.Fits ⟨id, some action, action.assumedChange⟩ := ⟨action, rfl, action.fits_assumedChange⟩

/-- Changes track something of the host. Undoing one may fail if that is `fallible`, and
that matters if the change concerns what is tracked. While an action is being applied or
a change is being undone, the changes cover what they track. -/
structure Ledger (o : Orchestrator) (w : Setting Effect.interface Stage) (fallible : Prop)
    (concerns : Made → Prop) (tracks covers : List Made → Mock.Host → Prop) : Prop where
  lawful : Stage.Lawful w
  covers_of_tracks : ∀ {made h}, tracks made h → covers made h
  apply : ∀ {made} s (id : String) (action : StepAction), tracks made s.host → s.isInFlight = true →
    (action.apply o.retry).Ensures w
      (fun t => t.saved = s.saved ∧ covers (made ++ [⟨id, some action, action.assumedChange⟩]) t.host)
      (onResult (fun change t => tracks (made ++ [⟨id, some action, change⟩]) t.host)
        fun _ t => tracks made t.host) s
  undo : ∀ {front m s}, tracks (front ++ [m]) s.host → m.Fits →
    (o.undo m).Ensures w
      (fun t => t.saved = s.saved ∧ covers (front ++ [m]) t.host)
      (fun r t => (r = .rolledBack → tracks front t.host) ∧
        (r ≠ .rolledBack → concerns m ∨ tracks front t.host)) s
  clean : ¬fallible → ∀ {m s}, m.Fits →
    (o.undo m).Ensures w (fun _ => True) (fun r _ => r = .rolledBack) s

namespace Ledger

variable {o : Orchestrator} {w : Setting Effect.interface Stage} {fallible distinct : Prop}
  {concerns : Made → Prop} {tracks covers : List Made → Mock.Host → Prop}
  {rest : List Step} {log : RunLog} {made front stuck : List Made} {s t : Stage}

/-- A change is undone cleanly if none but calls that go forward may fail. -/
theorem ensures_undo_clean (hback : ∀ c, c.goesForward = false → Stage.Succeeds w c) {m : Made}
    (h : m.Fits) :
    (o.undo m).Ensures w (fun _ => True) (fun r _ => r = .rolledBack) s := by
  obtain ⟨action, haction, hfits⟩ := h
  have hundo : (o.undo m).Ensures w (fun _ => True)
      (fun r _ => (r = .rolledBack → True) ∧ (r ≠ .rolledBack → False)) s := by
    refine Orchestrator.ensures_undo haction ?_
    refine (Stage.ensures_of_willing (action.only_rollback o.retry m.change) hback
      (action.ensures_rollback_ok o.retry hfits)).imp fun r t _ hr => ⟨fun _ => trivial, fun hf => ?_⟩
    rw [hr] at hf
    cases hf
  refine hundo.imp fun r _ _ hr => ?_
  by_contra hne
  exact hr.2 hne

/-- What the last log on disk says is left to undo covers the host. -/
def Covered (fallible distinct : Prop) (covers : List Made → Mock.Host → Prop) (s : Stage) : Prop :=
  ¬fallible → distinct → ∀ log, s.saved.head? = some log →
    (∀ m ∈ leftover log, m.Fits) ∧ covers (leftover log) s.host

/-- Between two steps of the forward half. -/
structure Poised (distinct : Prop) (tracks : List Made → Mock.Host → Prop) (rest : List Step)
    (log : RunLog) (made : List Made) (s : Stage) : Prop where
  tracked : tracks made s.host
  fits : ∀ m ∈ made, m.Fits
  saved : s.saved.head? = some log
  inFlight : log.inFlight = none
  /-- The log says what was made. -/
  listed : made = log.entries.filterMap LogEntry.made?
  recorded : distinct → Recorded rest log made

/-- Between two changes that are undone, of which those that are `stuck` were not. -/
structure Unwinding (fallible distinct : Prop) (concerns : Made → Prop)
    (tracks : List Made → Mock.Host → Prop) (rest : List Step) (log : RunLog)
    (front stuck : List Made) (s : Stage) : Prop where
  tracked : (∃ m ∈ stuck, concerns m) ∨ tracks front s.host
  fits : ∀ m ∈ front, m.Fits
  saved : s.saved.head? = some log
  inFlight : log.inFlight = none
  recorded : distinct → Recorded rest log (front ++ stuck)
  fallible : stuck ≠ [] → fallible

theorem Poised.covered (L : Ledger o w fallible concerns tracks covers)
    (h : Poised distinct tracks rest log made s) : Covered fallible distinct covers s := by
  intro _ hd log' hlog'
  obtain rfl : log = log' := Option.some.inj (h.saved.symm.trans hlog')
  rw [leftover_of_inFlight h.inFlight, (h.recorded hd).held_eq]
  exact ⟨h.fits, L.covers_of_tracks h.tracked⟩

/-- Nothing is stuck if undoing cannot fail, and what is left over is what is to be undone
still. -/
theorem Unwinding.leftover_eq
    (h : Unwinding fallible distinct concerns tracks rest log front stuck s) (hf : ¬fallible)
    (hd : distinct) : stuck = [] ∧ leftover log = front := by
  obtain rfl : stuck = [] := by
    by_contra hstuck
    exact hf (h.fallible hstuck)
  have hrecorded := h.recorded hd
  rw [List.append_nil] at hrecorded
  exact ⟨rfl, (leftover_of_inFlight h.inFlight).trans hrecorded.held_eq⟩

theorem Unwinding.covered (L : Ledger o w fallible concerns tracks covers)
    (h : Unwinding fallible distinct concerns tracks rest log front stuck s) :
    Covered fallible distinct covers s := by
  intro hf hd log' hlog'
  obtain rfl : log = log' := Option.some.inj (h.saved.symm.trans hlog')
  obtain ⟨rfl, hleft⟩ := h.leftover_eq hf hd
  rw [hleft]
  refine ⟨h.fits, L.covers_of_tracks ?_⟩
  obtain ⟨m, hm, -⟩ | htracks := h.tracked
  · cases hm
  · exact htracks

/-- The intent of a step is on disk: the step may have changed all that it could. -/
structure Marked (distinct : Prop) (covers : List Made → Mock.Host → Prop) (step : Step) (log : RunLog)
    (made : List Made) (since : String) (s : Stage) : Prop where
  saved : s.saved.head? = some (marking log step since)
  fits : ∀ m ∈ made, m.Fits
  held : distinct → held log = made
  covered : covers (made ++ [⟨step.id, some step.action, step.action.assumedChange⟩]) s.host

theorem Marked.stays_covered {step : Step} {since : String} (h : Marked distinct covers step log made since s) :
    Covered fallible distinct covers s := by
  intro _ hd log' hlog'
  obtain rfl : marking log step since = log' := Option.some.inj (h.saved.symm.trans hlog')
  have hleft : leftover (marking log step since) =
      made ++ [⟨step.id, some step.action, step.action.assumedChange⟩] := by
    rw [leftover_eq]
    exact congrArg (· ++ _) (h.held hd)
  rw [hleft]
  refine ⟨fun m hm => ?_, h.covered⟩
  rcases List.mem_append.1 hm with hm | hm
  · exact h.fits m hm
  · rw [List.mem_singleton.1 hm]
    exact fits_assumedChange _ _

/-- What holds once a step that was applied is recorded. -/
theorem Poised.applied {step : Step} {change : Change} (h : Poised distinct tracks (step :: rest) log made s)
    (hfits : step.action.Fits change)
    (ht : tracks (made ++ [⟨step.id, some step.action, change⟩]) t.host) (since now : String) :
    Poised distinct tracks rest (settled (marking log step since) step now (.ok change))
      (made ++ [⟨step.id, some step.action, change⟩])
      (t.save (settled (marking log step since) step now (.ok change))) where
  tracked := ht
  fits m hm := by
    rcases List.mem_append.1 hm with hm | hm
    · exact h.fits m hm
    · rw [List.mem_singleton.1 hm]
      exact ⟨_, rfl, hfits⟩
  saved := rfl
  inFlight := by simp [settled, marking, RunLog.push]
  listed := by simp [settled, marking, RunLog.push, LogEntry.made?, h.listed]
  recorded hd := ((h.recorded hd).applied change now).congr rfl

/-- What holds once a step has failed: nothing of it is recorded yet. -/
theorem Poised.failed {step : Step} {e : HostError} (h : Poised distinct tracks (step :: rest) log made s)
    (ht : tracks made t.host) (since now : String) :
    Poised distinct tracks (step :: rest) (settled (marking log step since) step now (.error e)) made
      (t.save (settled (marking log step since) step now (.error e))) :=
  ⟨ht, h.fits, rfl, rfl, h.listed, fun hd => (h.recorded hd).congr rfl⟩

/-- What the forward half leaves. -/
def Forwarded (distinct : Prop) (tracks : List Made → Mock.Host → Prop) (p : Progress) (s : Stage) :
    Prop :=
  ∃ rest, Poised distinct tracks rest p.log p.made s ∧
    ∀ step f, p.halt = .failed step f → ∃ later, rest = step :: later

/-- **Applying a step** keeps what the changes track. -/
theorem ensures_applied (L : Ledger o w fallible concerns tracks covers) {step : Step}
    (h : Poised distinct tracks (step :: rest) log made s) :
    (o.applyStep log step).run.Ensures w (Covered fallible distinct covers)
      (onResult (fun r s =>
        match r with
        | (log, .ok change) => Poised distinct tracks rest log (made ++ [⟨step.id, some step.action, change⟩]) s
        | (log, .error f) => Forwarded distinct tracks ⟨log, made, .failed step f⟩ s) fun _ _ => True) s := by
  refine ensures_applyStep L.lawful.quiet (h.covered L) fun since => ?_
  have hmarked : ∀ t : Stage, t.saved.head? = some (marking log step since) →
      covers (made ++ [⟨step.id, some step.action, step.action.assumedChange⟩]) t.host →
      Covered fallible distinct covers t := fun t ht hcovers =>
    Marked.stays_covered ⟨ht, h.fits, fun hd => (h.recorded hd).held_eq, hcovers⟩
  -- what the calls make of the host, and of what kind the change is
  have happly := (L.apply (s.save (marking log step since)) step.id step.action h.tracked rfl).and
    ((step.action.returns_fits o.retry).ensures (s.save (marking log step since)))
  refine L.lawful.saving (h.covered L) ⟨hmarked _ rfl happly.now.1.2, ?_⟩
  refine happly.mono (fun _ _ _ _ _ hx => hx) (fun t ht => hmarked t (by rw [ht.1.1]; rfl) ht.1.2) ?_
  rintro r t ⟨⟨hsaved, hcovers⟩, -⟩ ⟨hr, hfits⟩ now
  have ht := hmarked t (by rw [hsaved]; rfl) hcovers
  cases r with
  | ok change =>
    have hnext := h.applied (hfits change rfl) hr since now
    exact L.lawful.saving ht ⟨hnext.covered L, hnext⟩
  | error e =>
    have hnext := h.failed (e := e) hr since now
    refine L.lawful.saving ht ⟨hnext.covered L, _, hnext, fun step' f hf => ?_⟩
    obtain ⟨rfl, -⟩ := Halt.failed.inj hf
    exact ⟨rest, rfl⟩

/-- **The forward half** keeps what the changes track. -/
theorem ensures_forwarded (L : Ledger o w fallible concerns tracks covers) {skip : List String}
    (h : Poised distinct tracks rest log made s) :
    (o.forward skip log made rest).run.Ensures w (Covered fallible distinct covers)
      (onResult (Forwarded distinct tracks) fun _ _ => True) s := by
  -- the invariant of the loop is that it stands between two steps
  refine ensures_forward L.lawful.quiet (fun _ _ _ _ h => h.covered L) ?_ ?_ ?_ ?_ rest log made s h
  · exact fun log made s h => ⟨[], h, fun _ _ hf => by cases hf⟩
  · exact fun step rest log made s h => ⟨_, h, fun _ _ hf => by cases hf⟩
  · intro step rest log made s _ h now
    have hnext : Poised distinct tracks rest (log.push ⟨step.id, .skipped, none, now⟩) made
        (s.save (log.push ⟨step.id, .skipped, none, now⟩)) :=
      ⟨h.tracked, h.fits, rfl, by simp [RunLog.push, h.inFlight],
        by simp [RunLog.push, LogEntry.made?, h.listed], fun hd => (h.recorded hd).noted rfl none now⟩
    exact L.lawful.saving (h.covered L) ⟨hnext.covered L, hnext⟩
  · exact fun step rest log made s _ h => ensures_applied L h

/-- Undoing a change saves nothing, and comes to one of two results. -/
theorem ensures_undo_any (hw : Stage.Lawful w) (m : Made) (s : Stage) :
    (o.undo m).Ensures w (fun t => t.saved = s.saved)
      (fun r _ => r = .rolledBack ∨ ∃ f, r = .rollbackFailed f) s := by
  unfold Orchestrator.undo
  cases m.action with
  | none => exact ⟨rfl, .inr ⟨_, rfl⟩⟩
  | some action =>
    have hsaved : (action.rollback o.retry m.change).Ensures w
        (fun t => t.saved = s.saved) (fun _ _ => True) s := by
      refine (action.only_rollback o.retry m.change).ensures (fun t e x t' he ht hx => ?_) rfl
      exact (hw.saved_eq he hx).trans ht
    refine ensures_bind.2 (hsaved.imp ?_)
    rintro (e | _) t ht -
    · exact ⟨ht, .inr ⟨_, rfl⟩⟩
    · exact ⟨ht, .inl rfl⟩

/-- The results that undoing a change comes to: failing is for what is `fallible`. -/
theorem ensures_undo_clean_or (L : Ledger o w fallible concerns tracks covers) {m : Made} (h : m.Fits) :
    (o.undo m).Ensures w (fun t => t.saved = s.saved)
      (fun r _ => r = .rolledBack ∨ (fallible ∧ ∃ f, r = .rollbackFailed f)) s := by
  by_cases hf : fallible
  · refine (ensures_undo_any L.lawful m s).imp ?_
    rintro r t - (hr | hr)
    · exact .inl hr
    · exact .inr ⟨hf, hr⟩
  · exact ((L.clean hf h).and (ensures_undo_any L.lawful m s)).mono (fun _ _ _ _ _ hx => hx) (fun _ h => h.2)
      fun _ _ _ hr => .inl hr.1

/-- What holds once a change has been undone. -/
theorem Unwinding.undone {m : Made}
    (h : Unwinding fallible distinct concerns tracks rest log (front ++ [m]) stuck s)
    (ht : (∃ m ∈ stuck, concerns m) ∨ tracks front t.host) (now : String) :
    Unwinding fallible distinct concerns tracks rest (log.push ⟨m.step, .rolledBack, m.action, now⟩)
      front stuck (t.save (log.push ⟨m.step, .rolledBack, m.action, now⟩)) where
  tracked := ht
  fits m' hm' := h.fits m' (List.mem_append_left _ hm')
  saved := rfl
  inFlight := by simp [RunLog.push, h.inFlight]
  recorded hd := by
    have hrec := h.recorded hd
    rw [List.append_assoc, List.singleton_append] at hrec
    exact hrec.rolledBack now
  fallible := h.fallible

/-- What holds once undoing a change has failed: one more is stuck. -/
theorem Unwinding.kept {m : Made}
    (h : Unwinding fallible distinct concerns tracks rest log (front ++ [m]) stuck s) (hf : fallible)
    (ht : (∃ m' ∈ m :: stuck, concerns m') ∨ tracks front t.host) (f : Failure) (now : String) :
    Unwinding fallible distinct concerns tracks rest (log.push ⟨m.step, .rollbackFailed f, m.action, now⟩)
      front (m :: stuck) (t.save (log.push ⟨m.step, .rollbackFailed f, m.action, now⟩)) where
  tracked := ht
  fits m' hm' := h.fits m' (List.mem_append_left _ hm')
  saved := rfl
  inFlight := by simp [RunLog.push, h.inFlight]
  recorded hd := by
    have hrec := h.recorded hd
    rw [List.append_assoc, List.singleton_append] at hrec
    exact hrec.rollbackFailed (by simp) f now
  fallible _ := hf

/-- What undoing a change leaves, and the log that says so. -/
theorem ensures_undo (L : Ledger o w fallible concerns tracks covers) {m : Made}
    (h : Unwinding fallible distinct concerns tracks rest log (front ++ [m]) stuck s) :
    (o.undo m).Ensures w (Covered fallible distinct covers) (fun r t => ∀ now,
      ∃ stuck', (r = .rolledBack → stuck' = stuck) ∧ (r ≠ .rolledBack → stuck' = m :: stuck) ∧
        Unwinding fallible distinct concerns tracks rest (log.push ⟨m.step, r, m.action, now⟩) front
          stuck' (t.save (log.push ⟨m.step, r, m.action, now⟩))) s := by
  obtain ⟨m', hm', hconcerns⟩ | htracks := h.tracked
  · -- what matters is stuck already
    have hf : fallible := h.fallible (List.ne_nil_of_mem hm')
    refine (ensures_undo_any L.lawful m s).mono (fun _ _ _ _ _ hx => hx) (fun _ _ hnf => absurd hf hnf) ?_
    rintro r t - (rfl | ⟨f, rfl⟩) now
    · exact ⟨stuck, fun _ => rfl, fun hr => absurd rfl hr, h.undone (.inl ⟨m', hm', hconcerns⟩) now⟩
    · exact ⟨m :: stuck, (fun hr => by cases hr), fun _ => rfl,
        h.kept hf (.inl ⟨m', List.mem_cons_of_mem _ hm', hconcerns⟩) f now⟩
  · have hfit : m.Fits := h.fits m (by simp)
    refine ((L.undo htracks hfit).and (ensures_undo_clean_or L hfit)).mono (fun _ _ _ _ _ hx => hx) ?_ ?_
    · rintro t ⟨⟨ht, hcovers⟩, -⟩ hnf hd log' hlog'
      obtain rfl : log = log' := Option.some.inj (h.saved.symm.trans (ht ▸ hlog'))
      rw [(h.leftover_eq hnf hd).2]
      exact ⟨h.fits, hcovers⟩
    · rintro r t - ⟨⟨hback, hfailed⟩, rfl | ⟨hf, f, rfl⟩⟩ now
      · exact ⟨stuck, fun _ => rfl, fun hr => absurd rfl hr, h.undone (.inr (hback rfl)) now⟩
      · refine ⟨m :: stuck, (fun hr => by cases hr), fun _ => rfl, h.kept hf ?_ f now⟩
        obtain hconcerns | ht := hfailed (fun hr => by cases hr)
        · exact .inl ⟨m, List.mem_cons_self, hconcerns⟩
        · exact .inr ht

/-- **Unwinding** undoes what was made, but for what is stuck. -/
theorem ensures_unwound (L : Ledger o w fallible concerns tracks covers)
    (h : Poised distinct tracks rest log made s) :
    (o.unwindAll log made.reverse).run.Ensures w (Covered fallible distinct covers)
      (onResult (fun r s => ∃ stuck, r.2 = stuck.isEmpty ∧
        Unwinding fallible distinct concerns tracks rest r.1 [] stuck s) fun _ _ => True) s := by
  -- those in front are still to be undone, last one first; those that are stuck were tried
  let inv (todo : List Made) (log : RunLog) (clean : Bool) (s : Stage) : Prop :=
    ∃ front stuck, todo = front.reverse ∧ clean = stuck.isEmpty ∧
      Unwinding fallible distinct concerns tracks rest log front stuck s
  have hstart : inv made.reverse log true s := by
    refine ⟨made, [], rfl, rfl, .inr h.tracked, h.fits, h.saved, h.inFlight, fun hd => ?_, fun hne => ?_⟩
    · rw [List.append_nil]; exact h.recorded hd
    · exact absurd rfl hne
  have hall : (o.unwindAll log made.reverse).run.Ensures w
      (Covered fallible distinct covers) (onResult (fun r s => inv [] r.1 r.2 s) fun _ _ => True) s := by
    refine ensures_unwindAll L.lawful.quiet (fun _ _ _ _ ⟨_, _, _, _, h⟩ => h.covered L) ?_ hstart
    rintro m todo log clean s ⟨front, stuck, htodo, rfl, h⟩
    obtain rfl : front = todo.reverse ++ [m] := by
      rw [← List.reverse_cons, htodo, List.reverse_reverse]
    refine (ensures_undo L h).imp fun r t ht hr now => ?_
    obtain ⟨stuck', hback, hstuck, hnext⟩ := hr now
    refine L.lawful.saving ht ⟨hnext.covered L, todo.reverse, stuck', by simp, ?_, hnext⟩
    by_cases hrb : r = .rolledBack
    · rw [hback hrb]; simp [hrb]
    · rw [hstuck hrb]; simp [hrb]
  refine hall.imp ?_
  rintro (e | r) t - hr
  · exact hr
  · obtain ⟨front, stuck, hfront, hclean, h⟩ := hr
    obtain rfl : front = [] := by simpa using hfront.symm
    exact ⟨stuck, hclean, h⟩

/-- What is left of a run that returned. -/
structure Ended (fallible distinct : Prop) (concerns : Made → Prop)
    (tracks : List Made → Mock.Host → Prop) (report : RunReport) (s : Stage) : Prop where
  /-- What could not be undone is left in the log of a run that was aborted. -/
  aborted : (∃ cause, report.status = .aborted cause) → ∃ log stuck, s.saved.head? = some log ∧
    report.rollbackClean = stuck.isEmpty ∧ (stuck ≠ [] → fallible) ∧
    ((∃ m ∈ stuck, concerns m) ∨ tracks [] s.host) ∧ (distinct → held log = stuck)
  /-- All that was made is left in the log of a run that was completed. -/
  completed : report.status = .completed → ∃ log, s.saved.head? = some log ∧
    log.runId = report.runId ∧ log.status = .completed ∧
    tracks (log.entries.filterMap LogEntry.made?) s.host ∧
    (∀ m ∈ log.entries.filterMap LogEntry.made?, m.Fits) ∧
    (distinct → leftover log = log.entries.filterMap LogEntry.made?)

/-- What follows the forward half keeps what the changes track. -/
theorem ensures_finishing (L : Ledger o w fallible concerns tracks covers) {p : Progress}
    (h : Forwarded distinct tracks p s) :
    Finishing w (Covered fallible distinct covers) (fun _ _ => True) o
      (Ended fallible distinct concerns tracks) p s := by
  obtain ⟨rest, hpoised, hfailed⟩ := h
  obtain ⟨log, made, halt⟩ := p
  -- the log of a run that has ended differs in its status only
  have hend : ∀ {rest log stuck t}, Unwinding fallible distinct concerns tracks rest log [] stuck t →
      ∀ cause now, Saving w (Covered fallible distinct covers) (fun _ _ => True)
        (Ended fallible distinct concerns tracks
          (.ofLog (closing log (.aborted cause) now) stuck.isEmpty)) (closing log (.aborted cause) now) t := by
    intro rest log stuck t h cause now
    have hnext : Unwinding fallible distinct concerns tracks rest (closing log (.aborted cause) now) [] stuck
        (t.save (closing log (.aborted cause) now)) :=
        ⟨h.tracked, h.fits, rfl, h.inFlight, fun hd => (h.recorded hd).congr rfl, h.fallible⟩
    refine L.lawful.saving (h.covered L) ⟨hnext.covered L, fun _ => ?_, fun hcompleted => ?_⟩
    · exact ⟨_, stuck, rfl, rfl, hnext.fallible, hnext.tracked, fun hd => (hnext.recorded hd).held_eq⟩
    · cases hcompleted
  cases halt with
  | complete =>
    refine ensures_pureE.2 ⟨hpoised.covered L, fun now => ?_⟩
    have hnext : Poised distinct tracks rest (closing log .completed now) made
        (s.save (closing log .completed now)) :=
      ⟨hpoised.tracked, hpoised.fits, rfl, hpoised.inFlight, hpoised.listed,
        fun hd => (hpoised.recorded hd).congr rfl⟩
    refine L.lawful.saving (hpoised.covered L) ⟨hnext.covered L, ?_, fun _ => ?_⟩
    · rintro ⟨cause, hcause⟩
      cases hcause
    · have hlisted : log.entries.filterMap LogEntry.made? = made := hpoised.listed.symm
      refine ⟨_, rfl, rfl, rfl, ?_⟩
      rw [closing, hlisted]
      exact ⟨hpoised.tracked, hpoised.fits, fun hd =>
        (leftover_of_inFlight hnext.inFlight).trans (hnext.recorded hd).held_eq⟩
  | cancelled =>
    refine (ensures_unwound L hpoised).imp ?_
    rintro (e | ⟨log, clean⟩) t - hr
    · exact hr
    · obtain ⟨stuck, rfl, h⟩ := hr
      exact hend h _
  | failed step f =>
    obtain ⟨later, rfl⟩ := hfailed step f rfl
    refine (ensures_unwound L hpoised).imp ?_
    rintro (e | ⟨log, clean⟩) t - hr
    · exact hr
    · obtain ⟨stuck, rfl, h⟩ := hr
      intro since
      have hflight : log.inFlight = none := h.inFlight
      have hnext : Unwinding fallible distinct concerns tracks later
          (log.push ⟨step.id, .failed f, some step.action, since⟩) [] stuck
          (t.save (log.push ⟨step.id, .failed f, some step.action, since⟩)) :=
        ⟨h.tracked, h.fits, rfl, by simp [RunLog.push, hflight],
          fun hd => (h.recorded hd).noted rfl _ _, h.fallible⟩
      exact L.lawful.saving (h.covered L) ⟨hnext.covered L, fun now => hend hnext _ now⟩

/-- **A run keeps the log on disk and the host together**, at every point where it may be
stopped and where it returns. -/
theorem ensures_run (L : Ledger o w fallible concerns tracks covers) {registry : Registry}
    {skip : List String} (h : tracks [] s.host) (hs : s.saved = []) :
    (o.run registry skip).run.Ensures w (Covered fallible registry.Built covers)
      (onResult (Ended fallible registry.Built concerns tracks) fun _ _ => True) s := by
  have hnone : Covered fallible registry.Built covers s := by
    intro _ _ log hlog
    rw [hs] at hlog
    cases hlog
  refine Orchestrator.ensures_run L.lawful.quiet hnone (fun _ => trivial) fun plan hplan => ?_
  refine ensures_carryOut L.lawful.quiet hnone (fun _ => trivial) fun id started => ?_
  have hbuilt : registry.Built → ∀ log : RunLog, log.entries = [] → Recorded plan.steps log [] := by
    intro hb log hlog
    refine ⟨?_, by simp [hlog], hb.nodup_plan (plan_of_checkedPlan hplan), by simp⟩
    rw [held_eq, hlog]; rfl
  have hstart : ∀ (t : Stage) (log : RunLog), t.host = s.host → log.entries = [] → log.inFlight = none →
      Poised registry.Built tracks plan.steps log [] (t.save log) := fun t log ht hlog hflight =>
    ⟨ht ▸ h, by simp, rfl, hflight, by simp [hlog], fun hb => hbuilt hb _ hlog⟩
  have hcreated := hstart s (RunLog.start id started plan.ids) rfl rfl rfl
  have hrunning := hstart (s.save (RunLog.start id started plan.ids)) (running id started plan.ids)
    rfl rfl rfl
  refine L.lawful.saving hnone ⟨hcreated.covered L, ?_⟩
  refine L.lawful.saving (hcreated.covered L) ⟨hrunning.covered L, ?_⟩
  refine (ensures_forwarded L hrunning).imp ?_
  rintro (e | ⟨log, made, halt⟩) t - hp
  · exact hp
  · exact ensures_finishing L hp

/-- **A run that was aborted has undone all that it made**, if undoing cannot fail. -/
theorem undone (L : Ledger o w fallible concerns tracks covers) (hf : ¬fallible) {registry : Registry}
    {skip : List String} {report : RunReport} {cause : AbortCause} (h : tracks [] s.host)
    (hs : s.saved = [])
    (hr : (o.run registry skip).run.Reaches w s (.done (.ok report)) t)
    (hstatus : report.status = .aborted cause) : report.rollbackClean = true ∧ tracks [] t.host := by
  obtain ⟨-, hended⟩ := (ensures_run L h hs).sound hr
  obtain ⟨log, stuck, -, hclean, hstuck, htracks, -⟩ := hended.aborted ⟨cause, hstatus⟩
  obtain rfl : stuck = [] := by
    by_contra hne
    exact hf (hstuck hne)
  obtain ⟨m, hm, -⟩ | htracks := htracks
  · cases hm
  · exact ⟨hclean, htracks⟩

/-- The report says that something is left over, and the log on disk names it. -/
def NamesLeftover (concerns : Made → Prop) (report : RunReport) (s : Stage) : Prop :=
  report.rollbackClean = false ∧ ∃ log, s.saved.head? = some log ∧ ∃ m ∈ leftover log, concerns m

/-- **A run that was aborted has undone all that it made, or names in its log what it could
not undo**. -/
theorem undone_or_left (L : Ledger o w fallible concerns tracks covers) {registry : Registry}
    (hb : registry.Built) {skip : List String} {report : RunReport} {cause : AbortCause}
    (h : tracks [] s.host) (hs : s.saved = [])
    (hr : (o.run registry skip).run.Reaches w s (.done (.ok report)) t)
    (hstatus : report.status = .aborted cause) :
    tracks [] t.host ∨ NamesLeftover concerns report t := by
  obtain ⟨-, hended⟩ := (ensures_run L h hs).sound hr
  obtain ⟨log, stuck, hlog, hclean, -, ⟨m, hm, hconcerns⟩ | htracks, hheld⟩ := hended.aborted ⟨cause, hstatus⟩
  · refine .inr ⟨?_, log, hlog, m, ?_, hconcerns⟩
    · rw [hclean, List.isEmpty_eq_false_iff]
      exact List.ne_nil_of_mem hm
    · rw [leftover_eq, hheld hb]
      exact List.mem_append_left _ hm
  · exact .inl htracks

end Ledger

end Provision
