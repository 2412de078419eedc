import Provision.Proofs.Run.Outcome
import Provision.Proofs.Run.Resumed

/-!
# The log is ahead of the host

Whatever the host, the store and the operator do, a run says on disk what it is about to do
before it does it, and whoever rolls it back later does the same.

* `Ready`: the invariant of the forward half.
* `LeftBy`, `History`: what a run may leave on disk, and what rolling it back makes of that.
* `write_ahead`: **every call to the host is one for a step that the log on disk names, none
  follows a log that could not be saved, and what a log says is outstanding is what it says
  was applied and not undone since**.
-/

namespace Provision.Orchestrator

open Script Relation

variable {o : Orchestrator} {registry : Registry} {skip : List String} {step : Step}
  {steps rest : List Step} {log : RunLog} {made : List Made} {s t : Chronicle}

/-! ### A run -/

/-- Between two steps of the forward half: what was made is left over in the log on disk. -/
structure Ready (o : Orchestrator) (rest : List Step) (log : RunLog) (made : List Made)
    (s : Chronicle) : Prop where
  ahead : Ahead o s
  idle : s.Idle
  saved : s.saved.head? = some log
  inFlight : log.inFlight = none
  recorded : Recorded rest log made

namespace Ready

theorem coherent (h : Ready o rest log made s) : log.Coherent := h.ahead.head h.saved

theorem leftover_eq (h : Ready o rest log made s) : leftover log = made :=
  (leftover_of_inFlight h.inFlight).trans h.recorded.held_eq

/-- **Putting a log on disk** that says what was made. -/
theorem saving {post : Chronicle → Prop} (h : Ahead o s) (hrefused : s.refused = false)
    (hcoherent : log.Coherent) (hflight : log.inFlight = none) (hrecorded : Recorded rest log made)
    (hpost : Ready o rest log made (s.save log) → post (s.save log)) :
    Saving Chronicle.setting (Ahead o) (fun _ _ => True) post log s :=
  h.saving hcoherent (fun _ hu _ => hu)
    (hpost ⟨h.save hcoherent, .save hrefused _, rfl, hflight, hrecorded⟩)

end Ready

/-- What the forward half leaves: the step that failed, if one did, is not recorded yet. -/
def Halted (o : Orchestrator) (p : Progress) (s : Chronicle) : Prop :=
  ∃ rest, Ready o rest p.log p.made s ∧
    ∀ step f, p.halt = .failed step f → ∃ later, rest = step :: later

/-- **Applying a step**: its calls are made while the log on disk has it in flight. -/
theorem ensures_marked (h : Ready o (step :: rest) log made s) :
    (o.applyStep log step).run.Ensures Chronicle.setting (Ahead o)
      (onResult (fun r t =>
        match r with
        | (log, .ok change) => Ready o rest log (made ++ [⟨step.id, some step.action, change⟩]) t
        | (log, .error f) => Halted o ⟨log, made, .failed step f⟩ t) fun _ _ => True) s := by
  have hfresh : ∀ e ∈ log.entries, e.step ≠ step.id := h.recorded.fresh_of_cons
  refine ensures_applyStep Chronicle.quiet_setting h.ahead fun since => ?_
  have hmarked : (marking log step since).Coherent := h.coherent.marked h.inFlight hfresh since
  have hahead : Ahead o (s.save (marking log step since)) := h.ahead.save hmarked
  have hcalls := Chronicle.ensures_called ((step.action.only_apply o.retry).mono
    fun _ => Effect.serves.touchesHost) (s.save (marking log step since))
  have hcalled : ∀ t, Chronicle.Called (step.action.apply o.retry) (s.save (marking log step since)) t →
      Ahead o t := fun t ht => hahead.called (.save h.idle.2 _) rfl (fun _ hbegins => .applying rfl hbegins) ht
  refine h.ahead.saving hmarked (fun _ ht _ => ht) (hcalls.mono (fun _ _ _ _ _ hx => hx) hcalled ?_)
  rintro r t ht - now
  have hrefused : t.refused = false := ht.refused.trans h.idle.2
  cases r with
  | ok change =>
    have hpush : settled (marking log step since) step now (.ok change) =
        log.push ⟨step.id, .applied change, some step.action, now⟩ :=
      RunLog.Coherent.push_marking h.inFlight step since rfl
    rw [hpush]
    refine Ready.saving (hcalled t ht) hrefused (h.coherent.applied h.inFlight hfresh change now) ?_
      (h.recorded.applied change now) id
    simp [RunLog.push, h.inFlight]
  | error e =>
    refine Ready.saving (hcalled t ht) hrefused (h.coherent.congr rfl h.inFlight.symm) rfl
      (h.recorded.congr rfl) fun hnext => ⟨_, hnext, fun step' f hf => ?_⟩
    obtain ⟨rfl, -⟩ := Halt.failed.inj hf
    exact ⟨rest, rfl⟩

/-- **The forward half** stays ahead. -/
theorem ensures_halted (h : Ready o steps log made s) :
    (o.forward skip log made steps).run.Ensures Chronicle.setting (Ahead o)
      (onResult (Halted o) fun _ _ => True) s := by
  refine ensures_forward Chronicle.quiet_setting (fun _ _ _ _ h => h.ahead) ?_ ?_ ?_ ?_ steps log made s h
  · exact fun log made s h => ⟨[], h, fun _ _ hf => by cases hf⟩
  · exact fun step rest log made s h => ⟨_, h, fun _ _ hf => by cases hf⟩
  · intro step rest log made s _ h now
    have hcoherent : (log.push ⟨step.id, .skipped, none, now⟩).Coherent :=
      h.coherent.noted h.recorded.fresh_of_cons rfl (by simp) none now
    exact Ready.saving h.ahead h.idle.2 hcoherent (by simp [RunLog.push, h.inFlight])
      (h.recorded.noted rfl none now) id
  · exact fun step rest log made s _ h => ensures_marked h

/-- **Unwinding** stays ahead, and names no step that is still to come. -/
theorem ensures_rewound (h : Ready o rest log made s) :
    (o.unwindAll log made.reverse).run.Ensures Chronicle.setting (Ahead o)
      (onResult (fun r t => Ahead o t ∧ t.saved.head? = some r.1 ∧
        ∀ e ∈ r.1.entries, e.step ∉ rest.map (·.id)) fun _ _ => True) s := by
  have hunwound := ensures_unwound h.ahead h.idle h.saved
  rw [h.leftover_eq] at hunwound
  have haction : ∀ m ∈ made.reverse, ∃ action, m.action = some action := fun m hm =>
    h.coherent.known m (by rw [h.leftover_eq]; exact List.mem_reverse.1 hm)
  have htold := Chronicle.ensures_of_account (ensures_unwinding (o := o) (s := s.toAccount) haction h.saved)
  refine (hunwound.and htold).mono (fun _ _ _ _ _ hx => hx) (fun _ ht => ht.1.ahead) ?_
  rintro (e | ⟨log', clean⟩) t - ⟨hgoing, hentries⟩
  · exact hgoing
  · obtain ⟨back, undoing, hback, he, -⟩ := hentries
    refine ⟨hgoing.going.ahead, hgoing.saved, fun e hmem => ?_⟩
    rw [show log'.entries = log.entries ++ back from he, List.mem_append] at hmem
    rcases hmem with hmem | hmem
    · exact h.recorded.fresh e hmem
    · -- an entry of the backward half is one of a step that was made
      have hstep : e.step ∈ back.map (·.step) := List.mem_map_of_mem hmem
      rw [hback.map_step, List.mem_map] at hstep
      obtain ⟨m, hm, hstep⟩ := hstep
      rw [← hstep]
      exact h.recorded.not_mem_rest (List.mem_reverse.1 hm)

/-- **What follows the forward half** stays ahead. -/
theorem ensures_finished {p : Progress} (h : Halted o p s) :
    Finishing Chronicle.setting (Ahead o) (fun _ _ => True) o (fun _ _ => True) p s := by
  obtain ⟨rest, hready, hfailed⟩ := h
  obtain ⟨log, made, halt⟩ := p
  -- closing a log changes nothing that matters
  have hclose : ∀ {log t}, Ahead o t → t.saved.head? = some log → ∀ status now,
      Saving Chronicle.setting (Ahead o) (fun _ _ => True) (fun _ => True) (closing log status now) t :=
    fun ht hlog status now => ht.saving ((ht.head hlog).congr rfl rfl) (fun _ hu _ => hu) trivial
  cases halt with
  | complete => exact ensures_pureE.2 ⟨hready.ahead, fun now => hclose hready.ahead hready.saved _ now⟩
  | cancelled =>
    refine (ensures_rewound hready).imp ?_
    rintro (e | ⟨log', clean⟩) t - hr
    · exact hr
    · exact fun now => hclose hr.1 hr.2.1 _ now
  | failed step f =>
    obtain ⟨later, rfl⟩ := hfailed step f rfl
    refine (ensures_rewound hready).imp ?_
    rintro (e | ⟨log', clean⟩) t - hr
    · exact hr
    · obtain ⟨hahead, hlog, hfresh⟩ := hr
      intro since
      have hcoherent : (log'.push ⟨step.id, .failed f, some step.action, since⟩).Coherent := by
        refine (hahead.head hlog).noted (fun e he heq => hfresh e he ?_) rfl (by simp) _ since
        rw [heq]
        exact List.mem_cons_self
      exact hahead.saving hcoherent (fun _ ht _ => ht) fun now => hclose (hahead.save hcoherent) rfl _ now

/-- **A run stays ahead of the host**. -/
theorem ensures_ahead (hb : registry.Built) :
    (o.run registry skip).run.Ensures Chronicle.setting (Ahead o) (fun _ _ => True) {} := by
  have hnone : Ahead o {} := .of_since_nil (by simp) rfl
  have hall : (o.run registry skip).run.Ensures Chronicle.setting (Ahead o)
      (onResult (fun _ _ => True) fun _ _ => True) {} := by
    refine ensures_run Chronicle.quiet_setting hnone (fun _ => trivial) fun plan hplan => ?_
    refine ensures_carryOut Chronicle.quiet_setting hnone (fun _ => trivial) fun id started => ?_
    have hrecorded : Recorded plan.steps (running id started plan.ids) [] :=
      ⟨rfl, by simp [running, RunLog.start], hb.nodup_plan (plan_of_checkedPlan hplan), by simp⟩
    have hcreated : (RunLog.start id started plan.ids).Coherent := .of_nil rfl rfl
    have hrunning : (running id started plan.ids).Coherent := .of_nil rfl rfl
    have hahead := hnone.save hcreated
    refine hnone.saving hcreated (fun _ ht _ => ht) (hahead.saving hrunning (fun _ ht _ => ht) ?_)
    have hready : Ready o plan.steps (running id started plan.ids) []
        (({} : Chronicle).save (RunLog.start id started plan.ids) |>.save (running id started plan.ids)) :=
      ⟨hahead.save hrunning, .save rfl _, rfl, rfl, hrecorded⟩
    refine (ensures_halted hready).imp ?_
    rintro (e | p) t - hp
    · exact hp
    · exact ensures_finished hp
  exact hall.imp fun _ _ _ _ => trivial

/-! ### A run and what rolls it back -/

/-- What a run may leave on disk, stopped anywhere. -/
def LeftBy (registry : Registry) (s : Chronicle) : Prop :=
  ∃ (o : Orchestrator) (skip : List String) (p : Effects (Except RunError RunReport)),
    (o.run registry skip).run.Reaches Chronicle.setting {} p s

/-- What may be on disk after a run, and any number of invocations that rolled it back. -/
def History (registry : Registry) (s : Chronicle) : Prop :=
  ∃ s₀, LeftBy registry s₀ ∧ ReflTransGen RollsBack s₀ s

/-- The logs that a run and those who rolled it back put on disk hold together. -/
theorem History.coherent (hb : registry.Built) (h : History registry s) :
    ∀ log ∈ s.saved, log.Coherent := by
  obtain ⟨s₀, ⟨o, skip, p, hr⟩, hback⟩ := h
  exact (rollsBack_going ((ensures_ahead hb).sound hr).now.coherent hback).1

/-- An invocation that is about to go on with `p` is ahead of the host. -/
structure WrittenAhead (o : Orchestrator) (p : Effects (Except RunError RunReport)) (s : Chronicle) :
    Prop where
  /-- A call to the host is one for a step that the log on disk names, and all logs could be
  saved so far. -/
  named : ∀ c k, p = .ask (.host c) k →
    s.refused = false ∧ ∃ log, s.saved.head? = some log ∧ Names o log (s.since ++ [c])
  /-- A log on disk has outstanding, in order, what it says was applied and not undone since. -/
  outstanding : ∀ log ∈ s.saved, held log = standing log.entries

theorem writtenAhead_of_ensures {p q : Effects (Except RunError RunReport)} {always : Chronicle → Prop}
    {post : Except RunError RunReport → Chronicle → Prop}
    (h : p.Ensures Chronicle.setting always post s) (hahead : ∀ t, always t → Ahead o t)
    (hr : p.Reaches Chronicle.setting s q t) : WrittenAhead o q t := by
  refine ⟨?_, fun log hlog => ((hahead t (h.sound hr).now).coherent log hlog).held_eq⟩
  rintro c k rfl
  exact Ahead.of_reaches h hahead hr

/-- **Every call to the host is one for a step that the log on disk names**, as the step in
flight or as an outstanding one, in a run as in all that roll it back. None follows a log that
could not be saved, and what a log has outstanding is what it says was applied and not undone
since. -/
theorem write_ahead (hb : registry.Built) :
    (∀ o skip p t, (o.run registry skip).run.Reaches Chronicle.setting {} p t → WrittenAhead o p t) ∧
    ∀ s, History registry s → ∀ o id p t,
      (o.rollbackRun id).run.Reaches Chronicle.setting s.resumed p t → WrittenAhead o p t := by
  refine ⟨fun o skip p t hr => ?_, fun s hs o id p t hr => ?_⟩
  · exact writtenAhead_of_ensures (ensures_ahead hb) (fun _ ht => ht) hr
  · exact writtenAhead_of_ensures (ensures_rolledBack (hs.coherent hb)) (fun _ ht => ht.ahead) hr

/-- The run is stopped when the second unit is to be started, and rolled back until the first
one is to be stopped. -/
theorem write_ahead_inTurn : ∃ p s q t,
    ((⟨default, .immediate 2⟩ : Orchestrator).run inTurn []).run.Reaches Chronicle.setting {}
      (.ask (.host (.issue .start "b.service")) p) s ∧
    ((⟨default, .immediate 1⟩ : Orchestrator).rollbackRun none).run.Reaches Chronicle.setting s.resumed
      (.ask (.host (.undo .stop "a.service")) q) t ∧
    (∃ log, s.saved.head? = some log ∧
      Names ⟨default, .immediate 2⟩ log (s.since ++ [.issue .start "b.service"])) ∧
    (∃ log, t.saved.head? = some log ∧
      Names ⟨default, .immediate 1⟩ log (t.since ++ [.undo .stop "a.service"])) ∧
    ∀ log ∈ t.saved, held log = standing log.entries := by
  obtain ⟨p, s, q, t, hrun, hback⟩ : ∃ p s q t,
      Chronicle.walk maskedReply 18 ((⟨default, .immediate 2⟩ : Orchestrator).run inTurn []).run {} =
        some (.ask (.host (.issue .start "b.service")) p, s) ∧
      Chronicle.walk maskedReply 5 ((⟨default, .immediate 1⟩ : Orchestrator).rollbackRun none).run s.resumed =
        some (.ask (.host (.undo .stop "a.service")) q, t) :=
    ⟨_, _, _, _, rfl, rfl⟩
  have hr := Chronicle.reaches_of_walk hrun
  have hr' := Chronicle.reaches_of_walk hback
  have hhistory : History inTurn s := ⟨s, ⟨_, _, _, hr⟩, .refl⟩
  have hahead := (write_ahead built_inTurn).1 _ _ _ _ hr
  have hahead' := (write_ahead built_inTurn).2 s hhistory _ _ _ _ hr'
  exact ⟨p, s, q, t, hr, hr', (hahead.named _ _ rfl).2, (hahead'.named _ _ rfl).2, hahead'.outstanding⟩

end Provision.Orchestrator
