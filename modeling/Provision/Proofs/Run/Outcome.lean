import Provision.Proofs.Run.Account
import Provision.Proofs.Run.Leftover
import Provision.Proofs.Run.Plan

/-!
# What the log of a run says

Whatever the host, the store and the operator do, the log of a run that returns a
report tells a prefix of the plan in order, then, unless that was the whole plan,
the undoing of what was applied in reverse order, then the failure that stopped
the run if one did.

* `Advanced`, `Unwound`: the entries of the two halves of a run, with the calls to
  the host that were made for each entry.
* `Outcome`: the three ways in which a run ends.
* `run_outcome`: **every run that returns a report ends in one of them.**
-/

namespace Provision

open Script

/-- Whether an entry says that undoing a step failed. -/
def LogEntry.isStuck (e : LogEntry) : Bool :=
  match e.result with
  | .rollbackFailed _ => true
  | _ => false

namespace Orchestrator

/-- The entries of steps that were skipped or applied, in order, and the calls made
for them. -/
inductive Advanced (o : Orchestrator) (skip : List String) :
    List Step → List LogEntry → List HostCall → Prop
  | start : Advanced o skip [] [] []
  | skipped {steps : List Step} {entries : List LogEntry} {calls : List HostCall} (step : Step)
      (now : String) : Advanced o skip steps entries calls → step.id ∈ skip →
      Advanced o skip (steps ++ [step]) (entries ++ [⟨step.id, .skipped, none, now⟩]) calls
  | applied {steps : List Step} {entries : List LogEntry} {calls more : List HostCall} (step : Step)
      (change : Change) (now : String) : Advanced o skip steps entries calls → step.id ∉ skip →
      MakesCalls (step.action.apply o.retry) more (.ok change) →
      Advanced o skip (steps ++ [step])
        (entries ++ [⟨step.id, .applied change, some step.action, now⟩]) (calls ++ more)

/-- The entries of changes that were undone, or could not be, in the order in which
that was tried, and the calls made for them. -/
inductive Unwound (o : Orchestrator) : List Made → List LogEntry → List HostCall → Prop
  | start : Unwound o [] [] []
  | rolledBack {undone : List Made} {entries : List LogEntry} {calls more : List HostCall}
      {step : String} {action : StepAction} {change : Change} (now : String) :
      Unwound o undone entries calls → MakesCalls (action.rollback o.retry change) more (.ok ()) →
      Unwound o (undone ++ [⟨step, some action, change⟩])
        (entries ++ [⟨step, .rolledBack, some action, now⟩]) (calls ++ more)
  | stuck {undone : List Made} {entries : List LogEntry} {calls more : List HostCall}
      {step : String} {action : StepAction} {change : Change} {e : HostError} (now : String) :
      Unwound o undone entries calls → MakesCalls (action.rollback o.retry change) more (.error e) →
      Unwound o (undone ++ [⟨step, some action, change⟩])
        (entries ++ [⟨step, .rollbackFailed e.toFailure, some action, now⟩]) (calls ++ more)

/-- The ways in which a run ends that came through the steps `done` and has `rest`
left of its plan: the entries of its log, its status, its failure, and the calls it
made. -/
inductive Outcome (o : Orchestrator) (skip : List String) (done : List Step) :
    List Step → List LogEntry → RunStatus → Option StepFailure → List HostCall → Prop
  | completed {front : List LogEntry} {calls : List HostCall} :
      Advanced o skip done front calls → Outcome o skip done [] front .completed none calls
  | cancelled {step : Step} {later : List Step} {front back : List LogEntry}
      {calls undoing : List HostCall} : Advanced o skip done front calls →
      Unwound o (front.filterMap LogEntry.made?).reverse back undoing →
      Outcome o skip done (step :: later) (front ++ back) (.aborted .cancelled) none
        (calls ++ undoing)
  | failed {step : Step} {later : List Step} {front back : List LogEntry} {e : HostError}
      {calls tried undoing : List HostCall} (now : String) : Advanced o skip done front calls →
      step.id ∉ skip → MakesCalls (step.action.apply o.retry) tried (.error e) →
      Unwound o (front.filterMap LogEntry.made?).reverse back undoing →
      Outcome o skip done (step :: later)
        (front ++ back ++ [⟨step.id, .failed e.toFailure, some step.action, now⟩])
        (.aborted .failure) (some ⟨step.id, e.toFailure⟩) (calls ++ tried ++ undoing)

variable {o : Orchestrator} {registry : Registry} {skip : List String} {steps done rest : List Step}

/-- A change that was made is that of a step that was not to be skipped. -/
theorem Advanced.made {entries : List LogEntry} {calls : List HostCall}
    (h : Advanced o skip done entries calls) :
    ∀ m ∈ entries.filterMap LogEntry.made?,
      ∃ step ∈ done, step.id ∉ skip ∧ m.action = some step.action := by
  induction h with
  | start => simp
  | skipped step now _ _ ih =>
    intro m hm
    obtain ⟨step', hstep, hskip, ha⟩ := ih m (by simpa [LogEntry.made?] using hm)
    exact ⟨step', List.mem_append_left _ hstep, hskip, ha⟩
  | applied step change now _ hskip _ ih =>
    intro m hm
    rw [List.filterMap_append, List.mem_append] at hm
    rcases hm with hm | hm
    · obtain ⟨step', hstep, hskip', ha⟩ := ih m hm
      exact ⟨step', List.mem_append_left _ hstep, hskip', ha⟩
    · obtain rfl : m = ⟨step.id, some step.action, change⟩ := by simpa [LogEntry.made?] using hm
      exact ⟨step, by simp, hskip, rfl⟩

/-- The calls of the forward half are those of steps that were not to be skipped. -/
theorem Advanced.serves {entries : List LogEntry} {calls : List HostCall}
    (h : Advanced o skip done entries calls) :
    ∀ c ∈ calls, ∃ step ∈ done, step.id ∉ skip ∧ c.serves step.action := by
  induction h with
  | start => simp
  | skipped step now _ _ ih =>
    intro c hc
    obtain ⟨step', hstep, h⟩ := ih c hc
    exact ⟨step', List.mem_append_left _ hstep, h⟩
  | applied step change now _ hskip hmakes ih =>
    intro c hc
    rcases List.mem_append.1 hc with hc | hc
    · obtain ⟨step', hstep, h⟩ := ih c hc
      exact ⟨step', List.mem_append_left _ hstep, h⟩
    · exact ⟨step, by simp, hskip, hmakes.serves (step.action.only_apply o.retry) c hc⟩

theorem Advanced.any_isStuck {entries : List LogEntry} {calls : List HostCall}
    (h : Advanced o skip done entries calls) : entries.any LogEntry.isStuck = false := by
  induction h with
  | start => rfl
  | skipped step now _ _ ih => rw [List.any_append, ih]; rfl
  | applied step change now _ _ _ ih => rw [List.any_append, ih]; rfl

/-- Between two steps of the forward half: what has been done is in the log on disk. -/
structure Between (o : Orchestrator) (skip : List String) (done : List Step) (log : RunLog)
    (made : List Made) (calls : List HostCall) : Prop where
  advanced : Advanced o skip done log.entries calls
  made_eq : made = log.entries.filterMap LogEntry.made?
  inFlight : log.inFlight = none

/-- Where the forward half ends, with `rest` left of the plan. -/
def Stopped (o : Orchestrator) (skip : List String) (rest : List Step) (log : RunLog)
    (tried : List HostCall) : Halt → Prop
  | .complete => rest = [] ∧ log.failure = none ∧ tried = []
  | .cancelled => rest ≠ [] ∧ log.failure = none ∧ tried = []
  | .failed step f => ∃ later e, rest = step :: later ∧ step.id ∉ skip ∧
    MakesCalls (step.action.apply o.retry) tried (.error e) ∧ f = e.toFailure ∧
    log.failure = some ⟨step.id, f⟩

/-- What the forward half leaves. -/
def Forwarded (o : Orchestrator) (skip : List String) (steps : List Step) (p : Progress)
    (s : Account) : Prop :=
  ∃ done rest calls tried, steps = done ++ rest ∧ Between o skip done p.log p.made calls ∧
    s.saved.head? = some p.log ∧ s.calls = calls ++ tried ∧ Stopped o skip rest p.log tried p.halt

/-- The steps up to some point are in the log on disk, and nothing has failed. -/
def Underway (o : Orchestrator) (skip : List String) (steps : List Step) (rest : List Step)
    (log : RunLog) (made : List Made) (s : Account) : Prop :=
  ∃ done, steps = done ++ rest ∧ Between o skip done log made s.calls ∧ log.failure = none ∧
    s.saved.head? = some log

/-- **The forward half tells a prefix of the plan**, and how it ended. -/
theorem ensures_forwarded (log : RunLog) (made : List Made) (s : Account)
    (h : Underway o skip steps steps log made s) :
    (o.forward skip log made steps).run.Ensures Account.setting (fun _ => True)
      (onResult (Forwarded o skip steps) fun _ _ => True) s := by
  -- the cases are those of the loop: nothing left, a stop, a step skipped, a step applied
  refine ensures_forward Account.quiet_setting (fun _ _ _ _ _ => trivial) ?_ ?_ ?_ ?_ steps log made s h
  · rintro log made s ⟨done, hdone, hb, hf, hs⟩
    exact ⟨done, [], s.calls, [], hdone, hb, hs, by simp, rfl, hf, rfl⟩
  · rintro step rest log made s ⟨done, hdone, hb, hf, hs⟩
    exact ⟨done, step :: rest, s.calls, [], hdone, hb, hs, by simp, by simp, hf, rfl⟩
  · rintro step rest log made s hskip ⟨done, hdone, hb, hf, hs⟩ now
    refine Account.saving ⟨done ++ [step], by simp [hdone], ⟨?_, ?_, ?_⟩, hf, rfl⟩
    · exact .skipped step now hb.advanced hskip
    · simp [RunLog.push, hb.made_eq, LogEntry.made?]
    · simp [RunLog.push, hb.inFlight]
  · rintro step rest log made s hskip ⟨done, hdone, hb, hf, hs⟩
    refine ensures_applyStep Account.quiet_setting trivial fun since => Account.saving ?_
    refine (ensures_calls_apply o.retry step.action _).imp ?_
    rintro r t - ⟨-, calls, hcalls, hmakes⟩ now
    refine Account.saving ?_
    cases r with
    | ok change =>
      refine ⟨done ++ [step], by simp [hdone], ⟨?_, ?_, ?_⟩, hf, rfl⟩
      · rw [show t.calls = s.calls ++ calls from hcalls]
        exact .applied step change now hb.advanced hskip hmakes
      · simp [settled, marking, RunLog.push, hb.made_eq, LogEntry.made?]
      · simp [settled, marking, RunLog.push]
    | error e =>
      exact ⟨done, step :: rest, s.calls, calls, hdone, ⟨hb.advanced, hb.made_eq, rfl⟩, rfl, hcalls,
        rest, e, rfl, hskip, hmakes, rfl, rfl⟩

/-- What undoing changes leaves of a log, of the account and of being clean so far. -/
def Unwinding (o : Orchestrator) (log₀ : RunLog) (s₀ : Account) (undone : List Made) (log : RunLog)
    (clean : Bool) (s : Account) : Prop :=
  ∃ back undoing, Unwound o undone back undoing ∧ log.entries = log₀.entries ++ back ∧
    log.failure = log₀.failure ∧ (log₀.inFlight = none → log.inFlight = none) ∧
    s.saved.head? = some log ∧ s.calls = s₀.calls ++ undoing ∧ clean = !back.any LogEntry.isStuck

/-- The log on disk has entries of the first of the changes that are to be undone. -/
def Partway (o : Orchestrator) (log₀ : RunLog) (todo : List Made) (s : Account) : Prop :=
  ∃ log back undone undoing, s.saved.head? = some log ∧ log.entries = log₀.entries ++ back ∧
    undone <+: todo ∧ Unwound o undone back undoing

theorem Unwinding.partway {log₀ log : RunLog} {s₀ s : Account} {undone todo : List Made} {clean : Bool}
    (h : Unwinding o log₀ s₀ undone log clean s) (hundone : undone <+: todo) :
    Partway o log₀ todo s := by
  obtain ⟨back, undoing, hback, hentries, -, -, hsaved, -⟩ := h
  exact ⟨log, back, undone, undoing, hsaved, hentries, hundone, hback⟩

/-- **Unwinding tells one entry for each change, in order**, and stops at none. -/
theorem ensures_unwinding {log : RunLog} {todo : List Made} {s : Account}
    (haction : ∀ m ∈ todo, ∃ action, m.action = some action) (hs : s.saved.head? = some log) :
    (o.unwindAll log todo).run.Ensures Account.setting (Partway o log todo)
      (onResult (fun r t => Unwinding o log s todo r.1 r.2 t) fun _ _ => True) s := by
  -- some of the changes have been undone, and the others are still to be
  let inv (rest : List Made) (log' : RunLog) (clean : Bool) (t : Account) : Prop :=
    ∃ undone, todo = undone ++ rest ∧ Unwinding o log s undone log' clean t
  have hinv : ∀ rest log' clean t, inv rest log' clean t → Partway o log todo t := by
    rintro rest log' clean t ⟨undone, rfl, h⟩
    exact h.partway (List.prefix_append _ _)
  have hstart : inv todo log true s :=
    ⟨[], rfl, [], [], .start, by simp, rfl, id, hs, by simp, rfl⟩
  have hall : (o.unwindAll log todo).run.Ensures Account.setting (Partway o log todo)
      (onResult (fun r t => inv [] r.1 r.2 t) fun _ _ => True) s := by
    refine ensures_unwindAll Account.quiet_setting hinv ?_ hstart
    rintro ⟨step, action?, change⟩ rest log' clean t
      ⟨undone, htodo, back, undoing, hu, he, hf, hi, hs, hc, hclean⟩
    obtain ⟨action, haction⟩ := haction ⟨step, action?, change⟩ (by simp [htodo])
    obtain rfl : action? = some action := haction
    -- the calls of one change leave the disk as it is
    have hpartway : ∀ u : Account, u.saved = t.saved → Partway o log todo u := fun u hu' =>
      ⟨log', back, undone, undoing, hu' ▸ hs, he, htodo ▸ List.prefix_append _ _, hu⟩
    have hcalls := ensures_calls ((action.only_rollback o.retry change).mono
      fun _ => Effect.serves.touchesHost) t
    refine ensures_bind.2 (hcalls.mono (fun _ _ _ _ _ hx => hx) (fun u hu' => hpartway u hu'.1) ?_)
    rintro r u - ⟨hsaved, more, hmore, hmakes⟩
    have hcalls : u.calls = s.calls ++ (undoing ++ more) := by rw [hmore, hc, List.append_assoc]
    have htodo' : todo = (undone ++ [⟨step, some action, change⟩]) ++ rest := by simp [htodo]
    cases r with
    | ok _ =>
      refine ⟨hpartway u hsaved, fun now => ?_⟩
      have hnext : inv rest (log'.push ⟨step, .rolledBack, some action, now⟩) clean
          { u with saved := log'.push ⟨step, .rolledBack, some action, now⟩ :: u.saved } := by
        refine ⟨_, htodo', back ++ [⟨step, .rolledBack, some action, now⟩], _, .rolledBack now hu hmakes,
          ?_, hf, ?_, rfl, hcalls, ?_⟩
        · simp [RunLog.push, he]
        · exact fun hnone => by simp [RunLog.push, hi hnone]
        · simp [hclean, LogEntry.isStuck]
      simpa using Account.saving_keeping (hpartway u hsaved) ⟨hinv _ _ _ _ hnext, hnext⟩
    | error e =>
      refine ⟨hpartway u hsaved, fun now => ?_⟩
      have hnext : inv rest (log'.push ⟨step, .rollbackFailed e.toFailure, some action, now⟩) false
          { u with saved := log'.push ⟨step, .rollbackFailed e.toFailure, some action, now⟩ :: u.saved } := by
        refine ⟨_, htodo', back ++ [⟨step, .rollbackFailed e.toFailure, some action, now⟩], _,
          .stuck now hu hmakes, ?_, hf, ?_, rfl, hcalls, ?_⟩
        · simp [RunLog.push, he]
        · exact fun hnone => by simp [RunLog.push, hi hnone]
        · simp [LogEntry.isStuck]
      simpa using Account.saving_keeping (hpartway u hsaved) ⟨hinv _ _ _ _ hnext, hnext⟩
  refine hall.imp ?_
  rintro (e | r) t - h
  · exact h
  · obtain ⟨undone, htodo, h⟩ := h
    rw [List.append_nil] at htodo
    exact htodo ▸ h

/-- One entry is made for each change that is undone, of its step. -/
theorem Unwound.map_step {undone : List Made} {back : List LogEntry} {undoing : List HostCall}
    (h : Unwound o undone back undoing) : back.map (·.step) = undone.map (·.step) := by
  induction h with
  | start => rfl
  | rolledBack now _ _ ih => rw [List.map_append, List.map_append, ih]; rfl
  | stuck now _ _ ih => rw [List.map_append, List.map_append, ih]; rfl

/-- The calls of the backward half are those of the changes that were undone. -/
theorem Unwound.serves {undone : List Made} {back : List LogEntry} {undoing : List HostCall}
    (h : Unwound o undone back undoing) :
    ∀ c ∈ undoing, ∃ m ∈ undone, ∃ action, m.action = some action ∧ c.serves action := by
  have hlast : ∀ {undone : List Made} {calls more : List HostCall} {step : String}
      {action : StepAction} {change : Change} {r : Except HostError Unit},
      (∀ c ∈ calls, ∃ m ∈ undone, ∃ a, m.action = some a ∧ c.serves a) →
      MakesCalls (action.rollback o.retry change) more r →
      ∀ c ∈ calls ++ more, ∃ m ∈ undone ++ [⟨step, some action, change⟩],
        ∃ a, m.action = some a ∧ c.serves a := by
    intro undone calls more step action change r ih hmakes c hc
    rcases List.mem_append.1 hc with hc | hc
    · obtain ⟨m, hm, a, ha, hs⟩ := ih c hc
      exact ⟨m, List.mem_append_left _ hm, a, ha, hs⟩
    · exact ⟨_, List.mem_append_right _ (List.mem_singleton_self _), action, rfl,
        hmakes.serves (action.only_rollback o.retry change) c hc⟩
  induction h with
  | start => simp
  | rolledBack now _ hmakes ih => exact hlast ih hmakes
  | stuck now _ hmakes ih => exact hlast ih hmakes

theorem Advanced.undoing_serves {front back : List LogEntry} {calls undoing : List HostCall}
    (h : Advanced o skip done front calls)
    (hu : Unwound o (front.filterMap LogEntry.made?).reverse back undoing) :
    ∀ c ∈ undoing, ∃ step ∈ done, step.id ∉ skip ∧ c.serves step.action := by
  intro c hc
  obtain ⟨m, hm, action, ha, hserves⟩ := hu.serves c hc
  obtain ⟨step, hstep, hskip, ha'⟩ := h.made m (List.mem_reverse.1 hm)
  obtain rfl : action = step.action := Option.some.inj (ha.symm.trans ha')
  exact ⟨step, hstep, hskip, hserves⟩

/-- **No call is made for a step that is to be skipped, or for one that comes after
the step at which the run stopped.** -/
theorem Outcome.serves {entries : List LogEntry} {status : RunStatus} {failure : Option StepFailure}
    {calls : List HostCall} (h : Outcome o skip done rest entries status failure calls) :
    ∀ c ∈ calls, ∃ step ∈ done ++ rest.take 1, step.id ∉ skip ∧ c.serves step.action := by
  have hdone : ∀ {c : HostCall}, (∃ step ∈ done, step.id ∉ skip ∧ c.serves step.action) →
      ∃ step ∈ done ++ rest.take 1, step.id ∉ skip ∧ c.serves step.action := by
    rintro c ⟨step, hstep, h⟩
    exact ⟨step, List.mem_append_left _ hstep, h⟩
  intro c hc
  cases h with
  | completed hf => exact hdone (hf.serves c hc)
  | cancelled hf hb =>
    rcases List.mem_append.1 hc with hc | hc
    · exact hdone (hf.serves c hc)
    · exact hdone (hf.undoing_serves hb c hc)
  | @failed step later front back e calls tried undoing now hf hskip hmakes hb =>
    rcases List.mem_append.1 hc with hc | hc
    · rcases List.mem_append.1 hc with hc | hc
      · exact hdone (hf.serves c hc)
      · exact ⟨step, by simp, hskip, hmakes.serves (step.action.only_apply o.retry) c hc⟩
    · exact hdone (hf.undoing_serves hb c hc)

/-- What the log on disk and the report say of a run that returned. -/
def Told (o : Orchestrator) (skip : List String) (steps : List Step) (report : RunReport)
    (s : Account) : Prop :=
  ∃ log done rest, steps = done ++ rest ∧ s.saved.head? = some log ∧ log.inFlight = none ∧
    Outcome o skip done rest log.entries log.status log.failure s.calls ∧
    report = .ofLog log (!log.entries.any LogEntry.isStuck)

/-- **What follows the forward half ends the run in one of the three ways.** -/
theorem ensures_finishing {p : Progress} {s : Account} (h : Forwarded o skip steps p s) :
    Finishing Account.setting (fun _ => True) (fun _ _ => True) o (Told o skip steps) p s := by
  obtain ⟨done, rest, calls, tried, hsteps, hb, hs, hc, hstop⟩ := h
  obtain ⟨log, made, halt⟩ := p
  obtain ⟨hadv, rfl, hflight⟩ : Between o skip done log made calls := hb
  have haction : ∀ m ∈ (log.entries.filterMap LogEntry.made?).reverse,
      ∃ action, m.action = some action := by
    intro m hm
    obtain ⟨step, -, -, ha⟩ := hadv.made m (List.mem_reverse.1 hm)
    exact ⟨step.action, ha⟩
  have hfront : log.entries.any LogEntry.isStuck = false := hadv.any_isStuck
  cases halt with
  | complete =>
    obtain ⟨rfl, hf, rfl⟩ := hstop
    dsimp only at hf
    refine ensures_pureE.2 ⟨trivial, fun now => Account.saving ?_⟩
    refine ⟨_, done, [], hsteps, rfl, hflight, ?_, by simp [closing, hfront]⟩
    have hcalls : s.calls = calls := by simpa using hc
    simp only [closing, hf, hcalls]
    exact .completed hadv
  | cancelled =>
    obtain ⟨hrest, hf, rfl⟩ := hstop
    dsimp only at hf
    obtain ⟨step, later, rfl⟩ := List.exists_cons_of_ne_nil hrest
    refine (ensures_unwinding haction hs).mono (fun _ _ _ _ _ hx => hx) (fun _ _ => trivial) ?_
    rintro (e | ⟨log', clean⟩) t - hr
    · exact hr
    · obtain ⟨back, undoing, hback, he, hf', hi, -, hc', hclean⟩ := hr
      dsimp only at he hf' hi hclean
      refine fun now => Account.saving ⟨_, done, _, hsteps, rfl, hi hflight, ?_, ?_⟩
      · have hcalls : t.calls = calls ++ undoing := by simp [hc', hc]
        rw [closing, he, hf', hf, hcalls]
        exact .cancelled hadv hback
      · rw [closing, he, List.any_append, hfront, Bool.false_or, ← hclean]
  | failed step f =>
    obtain ⟨later, e, rfl, hskip, hmakes, rfl, hf⟩ := hstop
    dsimp only at hf
    refine (ensures_unwinding haction hs).mono (fun _ _ _ _ _ hx => hx) (fun _ _ => trivial) ?_
    rintro (e' | ⟨log', clean⟩) t - hr
    · exact hr
    · obtain ⟨back, undoing, hback, he, hf', hi, -, hc', hclean⟩ := hr
      dsimp only at he hf' hi hclean
      refine fun since => Account.saving fun now =>
        Account.saving ⟨_, done, _, hsteps, rfl, by simp [closing, RunLog.push, hi hflight], ?_, ?_⟩
      · have hcalls : t.calls = calls ++ tried ++ undoing := by simp [hc', hc]
        simp only [closing, RunLog.push, he, hf', hf, hcalls]
        exact .failed since hadv hskip hmakes hback
      · simp only [closing, RunLog.push, he, List.any_append, hfront, Bool.false_or, hclean]
        simp [LogEntry.isStuck]

/-- **What a run tells** when it returns a report. -/
theorem ensures_told (o : Orchestrator) (registry : Registry) (skip : List String) :
    (o.run registry skip).run.Ensures Account.setting (fun _ => True)
      (onResult (fun report t => ∃ plan, registry.plan = .ok plan ∧ Told o skip plan.steps report t)
        fun _ _ => True) {} := by
  refine ensures_run Account.quiet_setting trivial (fun _ => trivial) fun plan hplan => ?_
  have hcarry : (o.carryOut skip plan).run.Ensures Account.setting (fun _ => True)
      (onResult (Told o skip plan.steps) fun _ _ => True) {} := by
    refine ensures_carryOut Account.quiet_setting trivial (fun _ => trivial) fun id started => ?_
    refine Account.saving (Account.saving ?_)
    refine (ensures_forwarded (running id started plan.ids) [] _
      ⟨[], rfl, ⟨.start, rfl, rfl⟩, rfl, rfl⟩).imp ?_
    rintro (e | p) s - hp
    · exact hp
    · exact ensures_finishing hp
  refine hcarry.imp ?_
  rintro (e | report) s - h
  · exact h
  · exact ⟨plan, plan_of_checkedPlan hplan, h⟩

/-- **A run that returns a report has ended in one of the three ways**: its log tells a
prefix of the plan, then what was undone, then what failed, and it made no call for
any other step. -/
theorem run_outcome {report : RunReport} {t : Account}
    (h : (o.run registry skip).run.Reaches Account.setting {} (.done (.ok report)) t) :
    ∃ plan log done rest, registry.plan = .ok plan ∧ plan.steps = done ++ rest ∧
      t.saved.head? = some log ∧ log.inFlight = none ∧
      Outcome o skip done rest log.entries log.status log.failure t.calls ∧
      report = .ofLog log report.rollbackClean ∧
      (report.rollbackClean = true ↔ ∀ e ∈ log.entries, e.isStuck = false) ∧
      ∀ c ∈ t.calls, ∃ step ∈ done ++ rest.take 1, step.id ∉ skip ∧ c.serves step.action := by
  obtain ⟨-, plan, hplan, log, done, rest, hsteps, hs, hi, hout, rfl⟩ :=
    (ensures_told o registry skip).sound h
  exact ⟨plan, log, done, rest, hplan, hsteps, hs, hi, hout, rfl, by simp [RunReport.ofLog],
    hout.serves⟩

/-- The replies of a world in which no unit is enabled or running, and all goes well but
for starting `b.service`. -/
def maskedReply : (e : Effect) → e.Reply
  | .host (.unitState _) => .ok ⟨"loaded", "inactive", "disabled"⟩
  | .host (.issue op unit) =>
    if unit = "b.service" then .error (.rejected unit op.name "UnitMasked") else .ok ()
  | .host (.find _) => .ok none
  | .host (.mount _) | .host (.unmount _) | .host (.undo _ _) | .host .reloadManager => .ok ()
  | .resolve _ => some
  | .pause _ | .unlock => ()
  | .cancelled => false
  | .now => default
  | .process => 1
  | .lock => .ok true
  | .prepare | .save _ => .ok ()
  | .load id => .error (.runNotFound id)
  | .latest => .error (.noRuns "")

/-- Two units that are to run, one after the other. -/
def inTurn : Registry :=
  ⟨[⟨"a", [], .service { name := "a", active := some true }⟩,
    ⟨"b", ["a"], .service { name := "b", active := some true }⟩]⟩

theorem built_inTurn : inTurn.Built :=
  Registry.built_ofPlanFile (show Registry.ofPlanFile ⟨1, none, inTurn.steps⟩ = .ok inTurn from rfl)

/-- The second unit cannot be started, and the run ends with what was undone. -/
theorem run_outcome_masked : ∃ report t,
    ((⟨default, .immediate 2⟩ : Orchestrator).run inTurn []).run.Reaches Account.setting {}
      (.done (.ok report)) t ∧
    ∃ plan log done rest, inTurn.plan = .ok plan ∧ plan.steps = done ++ rest ∧
      t.saved.head? = some log ∧ log.inFlight = none ∧
      Outcome ⟨default, .immediate 2⟩ [] done rest log.entries log.status log.failure t.calls ∧
      report = .ofLog log report.rollbackClean ∧
      (report.rollbackClean = true ↔ ∀ e ∈ log.entries, e.isStuck = false) ∧
      ∀ c ∈ t.calls, ∃ step ∈ done ++ rest.take 1, step.id ∉ [] ∧ c.serves step.action := by
  obtain ⟨report, t, hwalk⟩ : ∃ report t,
      ((⟨default, .immediate 2⟩ : Orchestrator).run inTurn []).run.walk (Account.replay maskedReply)
        (fun _ _ => true) 60 {} = some (.done (.ok report), t) := ⟨_, _, rfl⟩
  have hrun := Reaches.of_walk (fun s r _ => Account.setting_replay maskedReply s r) hwalk
  exact ⟨report, t, hrun, run_outcome hrun⟩

end Orchestrator

end Provision
