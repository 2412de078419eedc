import Provision.Proofs.Run.WriteAhead
import Provision.Proofs.Units.Recorded

/-!
# Which step operates on a unit

* `HostCall.operated?`, `StepAction.operated?`: the unit that a call operates on, and the one that an
  action may operate on.
* `only_apply_operated`, `only_rollback_operated`: an action operates on no other.
* `AtWork`, `Operates`: an invocation operates on a unit for a step that the log on disk names.
* `Logged`, `ensures_logged`: **what holds of the changes that the steps of a plan can make holds of
  all that the logs of a run say was made.**
* `exists_operates`, `Operates.step`: each operation is made for a step, and only for one that is
  registered, is not to be skipped, and may operate on the unit.
-/

namespace Provision

open Script Orchestrator Provision.Units

/-- The unit that a call operates on. -/
def HostCall.operated? : HostCall → Option String
  | issue _ unit | undo _ unit => some unit
  | find _ | mount _ | unmount _ | unitState _ | reloadManager => none

/-- The unit that an action may operate on: there is one if an operation can be missing. -/
def StepAction.operated? : StepAction → Option String
  | mount _ => none
  | service unit => if missableOps unit = [] then none else some unit.unitName

/-- A request operates on this unit only. -/
def Effect.OperatesOn (unit? : Option String) : Effect → Prop
  | host c => ∀ unit, c.operated? = some unit → unit? = some unit
  | _ => True

theorem Effect.serves.operatesOn {e : Effect} {unit : ServiceUnit} (h : e.serves (.service unit)) :
    e.OperatesOn (some unit.unitName) := by
  cases e with
  | host c =>
    intro name hname
    cases c with
    | issue _ _ | undo _ _ => exact (congrArg some (Eq.symm h)).trans hname
    | _ => cases hname
  | _ => trivial

theorem Effect.serves.operatesOn_none {e : Effect} {spec : MountSpec} (h : e.serves (.mount spec)) :
    e.OperatesOn none := by
  cases e with
  | host c =>
    intro name hname
    cases c with
    | issue _ _ | undo _ _ => exact h.elim
    | _ => cases hname
  | _ => trivial

/-! ### Actions -/

section Idle

variable {unit : ServiceUnit} (hidle : missableOps unit = [])

include hidle

/-- An attempt to reconcile a unit of which nothing can be missing operates on no unit. -/
theorem only_reconcile_idle (uncertain : List UnitOp) :
    (reconcile unit uncertain).Only (Effect.OperatesOn none) := by
  have hreload : (reloadIfAsked unit).Only (Effect.OperatesOn none) := by
    unfold reloadIfAsked
    split
    · exact only_call fun _ h => by cases h
    · trivial
  have hdiff : (diff unit).Only (Effect.OperatesOn none) := by
    refine Only.bind (Only.bind (only_call fun _ h => by cases h) fun reply => ?_) fun _ => trivial
    rcases reply with e | _ <;> trivial
  refine Only.bind hreload fun reply => ?_
  rcases reply with e | _
  · trivial
  · refine hdiff.bind_returns (returns_diff_missable unit) ?_
    rintro (e | ops) hops
    · trivial
    · obtain rfl : ops = [] := List.eq_nil_of_sublist_nil (hidle ▸ hops ops rfl)
      trivial

theorem StepAction.only_apply_idle (policy : Retry) :
    ((StepAction.service unit).apply policy).Only (Effect.OperatesOn none) := by
  have hlost : (policy.attempts (reconcile unit) []).Returns fun r => r.2 = [] := by
    refine policy.returns_attempts_from (· = []) (fun U hU => ?_) rfl
    refine (returns_reconcile_missable (by simp [hU])).imp fun r hr => ?_
    have hnone : r.2 = [] := List.eq_nil_iff_forall_not_mem.2 fun op hop => by
      simpa [hidle] using hr.2 op hop
    exact ⟨hnone, fun _ _ _ => hnone⟩
  refine (policy.only_attempts (fun _ => trivial) (only_reconcile_idle hidle) []).bind_returns hlost ?_
  rintro ⟨e | change, U⟩ rfl
  · trivial
  · cases change <;> trivial

end Idle

namespace StepAction

/-- A change is one that the action can make: where no operation can be missing there is none. -/
def CanMake (action : StepAction) (change : Change) : Prop :=
  ∀ unit, action = .service unit → missableOps unit = [] → change = .service []

theorem returns_apply_canMake (policy : Retry) (action : StepAction) :
    (action.apply policy).Returns fun r => ∀ change, r = .ok change → action.CanMake change := by
  cases action with
  | mount spec => exact (returns_any _).imp fun _ _ _ _ _ h => by cases h
  | service unit =>
    refine (returns_apply_missable policy unit).imp fun r hr change hchange => ?_
    obtain ⟨ops, rfl, hops⟩ := hr change hchange
    rintro unit' ⟨⟩ hidle
    rw [hidle] at hops
    rw [List.eq_nil_of_sublist_nil hops]

theorem canMake_assumed (action : StepAction) : action.CanMake action.assumedChange := by
  rintro unit rfl hidle
  have hdesired := filter_missableOps unit
  rw [hidle, List.filter_nil] at hdesired
  rw [assumedChange, ← hdesired]

/-- **Applying an action operates on its own unit only.** -/
theorem only_apply_operated (policy : Retry) (action : StepAction) :
    (action.apply policy).Only (Effect.OperatesOn action.operated?) := by
  cases action with
  | mount spec => exact (only_apply policy (.mount spec)).mono fun _ => Effect.serves.operatesOn_none
  | service unit =>
    by_cases hidle : missableOps unit = []
    · rw [operated?, if_pos hidle]
      exact only_apply_idle hidle policy
    · rw [operated?, if_neg hidle]
      exact (only_apply policy (.service unit)).mono fun _ => Effect.serves.operatesOn

/-- **Undoing a change operates on the unit of the action only.** -/
theorem only_rollback_operated (policy : Retry) {action : StepAction} {change : Change}
    (h : action.CanMake change) :
    (action.rollback policy change).Only (Effect.OperatesOn action.operated?) := by
  cases action with
  | mount spec =>
    exact (only_rollback policy (.mount spec) change).mono fun _ => Effect.serves.operatesOn_none
  | service unit =>
    by_cases hidle : missableOps unit = []
    · rw [h unit rfl hidle]
      trivial
    · rw [operated?, if_neg hidle]
      exact (only_rollback policy (.service unit) change).mono fun _ => Effect.serves.operatesOn

end StepAction

/-! ### What logs say was made -/

/-- What the log says was made, and what it takes the step in flight to have made, has a property. -/
structure Logged (P : Made → Prop) (log : RunLog) : Prop where
  made : ∀ e ∈ log.entries, ∀ m, e.made? = some m → P m
  inFlight : ∀ f, log.inFlight = some f → P ⟨f.step, some f.action, f.action.assumedChange⟩

namespace Logged

variable {P : Made → Prop} {log log' : RunLog} {step : Step}

/-- What is left to undo has it. -/
theorem leftover (h : Logged P log) {m : Made} (hm : m ∈ leftover log) : P m := by
  rcases mem_leftover.1 hm with hm | ⟨f, hf, rfl⟩
  · rw [held_eq] at hm
    obtain ⟨e, he, hmade⟩ := List.mem_filterMap.1 (List.mem_filter.1 hm).1
    exact h.made e he m hmade
  · exact h.inFlight f hf

theorem congr (h : Logged P log) (hentries : log'.entries = log.entries)
    (hflight : log'.inFlight = none ∨ log'.inFlight = log.inFlight) : Logged P log' := by
  refine ⟨hentries ▸ h.made, fun f hf => ?_⟩
  rcases hflight with hnone | hsame
  · rw [hnone] at hf; cases hf
  · exact h.inFlight f (hsame ▸ hf)

theorem push (h : Logged P log) {e : LogEntry} (he : ∀ m, e.made? = some m → P m) :
    Logged P (log.push e) := by
  refine ⟨fun e' he' => ?_, fun f hf => h.inFlight f (Option.filter_eq_some_iff.1 hf).1⟩
  rcases List.mem_append.1 he' with he' | he'
  · exact h.made e' he'
  · rw [List.mem_singleton.1 he']
    exact he

theorem marking (h : Logged P log) (hstep : P ⟨step.id, some step.action, step.action.assumedChange⟩)
    (since : String) : Logged P (marking log step since) := by
  refine ⟨h.made, fun f hf => ?_⟩
  obtain rfl : (⟨step.id, step.action, since⟩ : InFlight) = f := Option.some.inj hf
  exact hstep

end Logged

section Run

variable {P : Made → Prop} {o : Orchestrator} {registry : Registry} {skip : List String}
  {plan : RunPlan} {log : RunLog} {s : Account}

/-- All logs on disk say so. -/
def AllLogged (P : Made → Prop) (s : Account) : Prop := ∀ log ∈ s.saved, Logged P log

theorem AllLogged.congr {t : Account} (h : AllLogged P s) (hsaved : t.saved = s.saved) :
    AllLogged P t := by
  unfold AllLogged
  rw [hsaved]
  exact h

/-- **Putting a log on disk** that says so. -/
theorem AllLogged.saving (h : AllLogged P s) (hlog : Logged P log) {post : Account → Prop}
    (hpost : AllLogged P { s with saved := log :: s.saved } → post { s with saved := log :: s.saved }) :
    Saving Account.setting (AllLogged P) (fun _ _ => True) post log s := by
  have hnext : AllLogged P { s with saved := log :: s.saved } := List.forall_mem_cons.2 ⟨hlog, h⟩
  exact Account.saving_keeping h ⟨hnext, hpost hnext⟩

/-- Undoing a change puts nothing on disk, and is recorded as done or not. -/
theorem ensures_undo_logged (m : Made) (s : Account) :
    (o.undo m).Ensures Account.setting (fun t => t.saved = s.saved)
      (fun r _ => r = .rolledBack ∨ ∃ f, r = .rollbackFailed f) s := by
  obtain ⟨id, action?, change⟩ := m
  cases action? with
  | none => exact ⟨rfl, .inr ⟨_, rfl⟩⟩
  | some action =>
    have hcalls := ensures_calls ((action.only_rollback o.retry change).mono
      fun _ => Effect.serves.touchesHost) s
    refine ensures_bind.2 (hcalls.mono (fun _ _ _ _ _ hx => hx) (fun _ ht => ht.1) ?_)
    rintro (e | _) t ht -
    · exact ⟨ht.1, .inr ⟨_, rfl⟩⟩
    · exact ⟨ht.1, .inl rfl⟩

theorem ensures_unwinding_logged {todo : List Made} (h : AllLogged P s) (hlog : Logged P log) :
    (o.unwindAll log todo).run.Ensures Account.setting (AllLogged P)
      (onResult (fun r t => AllLogged P t ∧ Logged P r.1) fun _ _ => True) s := by
  let inv (_ : List Made) (log : RunLog) (_ : Bool) (s : Account) : Prop := AllLogged P s ∧ Logged P log
  have hstart : inv todo log true s := ⟨h, hlog⟩
  refine ensures_unwindAll Account.quiet_setting (fun _ _ _ _ h => h.1) ?_ hstart
  intro m rest log clean s h
  refine (ensures_undo_logged m s).mono (fun _ _ _ _ _ hx => hx) (fun _ ht => h.1.congr ht) ?_
  intro r t ht hr now
  have hpush : Logged P (log.push ⟨m.step, r, m.action, now⟩) :=
    h.2.push fun m' hm' => by obtain rfl | ⟨f, rfl⟩ := hr <;> cases hm'
  exact (h.1.congr ht).saving hpush fun hnext => ⟨hnext, hpush⟩

/-- What is assumed of a step, and whatever it can make, has the property. -/
structure Makes (P : Made → Prop) (policy : Retry) (step : Step) : Prop where
  assumed : P ⟨step.id, some step.action, step.action.assumedChange⟩
  applied : (step.action.apply policy).Returns fun r =>
    ∀ change, r = .ok change → P ⟨step.id, some step.action, change⟩

theorem ensures_applyStep_logged {step : Step} (hmakes : Makes P o.retry step) (h : AllLogged P s)
    (hlog : Logged P log) : (o.applyStep log step).run.Ensures Account.setting (AllLogged P)
      (onResult (fun r t => AllLogged P t ∧ Logged P r.1) fun _ _ => True) s := by
  refine ensures_applyStep Account.quiet_setting h fun since => ?_
  have hmarked : Logged P (marking log step since) := hlog.marking hmakes.assumed since
  refine h.saving hmarked fun hnext => ?_
  have hcalls := (ensures_calls ((step.action.only_apply o.retry).mono
    fun _ => Effect.serves.touchesHost) _).and (hmakes.applied.ensures
      { s with saved := marking log step since :: s.saved })
  refine hcalls.mono (fun _ _ _ _ _ hx => hx) (fun _ ht => hnext.congr ht.1.1) ?_
  rintro (e | change) t ⟨⟨hsaved, -⟩, -⟩ ⟨-, hmade⟩ now
  · have hfailed : Logged P (settled (marking log step since) step now (.error e)) :=
      hlog.congr rfl (.inl rfl)
    exact (hnext.congr hsaved).saving hfailed fun hnext => ⟨hnext, hfailed⟩
  · have hpush : Logged P (settled (marking log step since) step now (.ok change)) := by
      refine hmarked.push fun m hm => ?_
      obtain rfl := Option.some.inj hm
      exact hmade change rfl
    exact (hnext.congr hsaved).saving hpush fun hnext => ⟨hnext, hpush⟩

theorem ensures_forward_logged {steps : List Step} {made : List Made}
    (hmakes : ∀ step ∈ steps, step.id ∉ skip → Makes P o.retry step) (h : AllLogged P s)
    (hlog : Logged P log) : (o.forward skip log made steps).run.Ensures Account.setting (AllLogged P)
      (onResult (fun p t => AllLogged P t ∧ Logged P p.log) fun _ _ => True) s := by
  let inv (rest : List Step) (log : RunLog) (_ : List Made) (s : Account) : Prop :=
    (∀ step ∈ rest, step.id ∉ skip → Makes P o.retry step) ∧ AllLogged P s ∧ Logged P log
  have hstart : inv steps log made s := ⟨hmakes, h, hlog⟩
  refine ensures_forward Account.quiet_setting (fun _ _ _ _ h => h.2.1) (fun _ _ _ h => h.2)
    (fun _ _ _ _ _ h => h.2) ?_ ?_ steps log made s hstart
  · rintro step rest log made s - ⟨hmakes, h, hlog⟩ now
    have hpush : Logged P (log.push ⟨step.id, .skipped, none, now⟩) := hlog.push fun m hm => by cases hm
    exact h.saving hpush fun hnext =>
      ⟨fun _ hrest => hmakes _ (List.mem_cons_of_mem _ hrest), hnext, hpush⟩
  · rintro step rest log made s hskip ⟨hmakes, h, hlog⟩
    refine (ensures_applyStep_logged (hmakes step List.mem_cons_self hskip) h hlog).imp ?_
    rintro (e | ⟨log', r⟩) t - ht
    · trivial
    · cases r with
      | ok change => exact ⟨fun _ hrest => hmakes _ (List.mem_cons_of_mem _ hrest), ht⟩
      | error f => exact ht

/-- **What holds of all that the steps can make holds of all that the logs of a run say was made.** -/
theorem ensures_logged (hmakes : ∀ step ∈ registry.steps, step.id ∉ skip → Makes P o.retry step) :
    (o.run registry skip).run.Ensures Account.setting (AllLogged P) (fun _ _ => True) {} := by
  have hnone : AllLogged P {} := fun _ h => by cases h
  have hall : (o.run registry skip).run.Ensures Account.setting (AllLogged P)
      (onResult (fun _ _ => True) fun _ _ => True) {} := by
    refine ensures_run Account.quiet_setting hnone (fun _ => trivial) fun plan hplan => ?_
    refine ensures_carryOut Account.quiet_setting hnone (fun _ => trivial) fun id started => ?_
    have hempty : ∀ log : RunLog, log.entries = [] → log.inFlight = none → Logged P log :=
      fun log hentries hflight => ⟨by simp [hentries], by simp [hflight]⟩
    have hrunning := hempty (running id started plan.ids) rfl rfl
    refine hnone.saving (hempty (RunLog.start id started plan.ids) rfl rfl) fun hstarted =>
      hstarted.saving hrunning fun hready => ?_
    have hplanned : ∀ step ∈ plan.steps, step.id ∉ skip → Makes P o.retry step := fun step hstep =>
      hmakes step ((Registry.plan_perm (plan_of_checkedPlan hplan)).mem_iff.1 hstep)
    refine (ensures_forward_logged hplanned hready hrunning).imp ?_
    rintro (e | p) t - ht
    · trivial
    · refine (ensures_unwinding_logged ht.1 ht.2).imp ?_
      rintro (e | ⟨log, clean⟩) u - hu
      · trivial
      · -- ending a log says nothing of what was made
        have hclose : ∀ {log : RunLog} {v : Account}, AllLogged P v → Logged P log → ∀ status now,
            Saving Account.setting (AllLogged P) (fun _ _ => True) (fun _ => True)
              (closing log status now) v := by
          intro log v hv hlog status now
          have hclosed : Logged P (closing log status now) := hlog.congr rfl (.inr rfl)
          exact hv.saving hclosed fun _ => trivial
        obtain ⟨log', made, halt⟩ := p
        cases halt with
        | complete | cancelled => exact fun now => hclose hu.1 hu.2 _ now
        | failed step f =>
          intro since
          have hpush : Logged P (log.push ⟨step.id, .failed f, some step.action, since⟩) :=
            hu.2.push fun m hm => by cases hm
          exact hu.1.saving hpush fun hnext now => hclose hnext hpush _ now
  exact hall.imp fun _ _ _ _ => trivial

end Run

/-! ### Steps at work -/

/-- The calls are those of the step of this name, with this action, which the log names. -/
inductive AtWork (o : Orchestrator) (log : RunLog) (calls : List HostCall) : String → StepAction → Prop
  /-- The step in flight is being applied. -/
  | applying {f : InFlight} : log.inFlight = some f → Begins (f.action.apply o.retry) calls →
      AtWork o log calls f.step f.action
  /-- What is left to undo of a step is being undone. -/
  | undoing {m : Made} {action : StepAction} : m ∈ leftover log → m.action = some action →
      Begins (action.rollback o.retry m.change) calls → AtWork o log calls m.step action

/-- An invocation that is about to go on with `p` operates on a unit for a step. -/
def Operates {α : Type} (o : Orchestrator) (p : Effects α) (s : Chronicle) (unit id : String) : Prop :=
  ∃ (c : HostCall) (k : c.Reply → Effects α) (log : RunLog) (action : StepAction),
    p = .ask (.host c) k ∧ c.operated? = some unit ∧ s.saved.head? = some log ∧
      AtWork o log (s.since ++ [c]) id action

/-- A change that a registered step can have made which is not to be skipped. -/
def Ours (registry : Registry) (skip : List String) (m : Made) : Prop :=
  ∃ step ∈ registry.steps, step.id ∉ skip ∧ m.step = step.id ∧ m.action = some step.action ∧
    step.action.CanMake m.change

variable {o : Orchestrator} {registry : Registry} {skip : List String} {log : RunLog}
  {calls : List HostCall} {id unit : String} {action : StepAction}

theorem makes_ours (policy : Retry) {step : Step} (hstep : step ∈ registry.steps)
    (hskip : step.id ∉ skip) : Makes (Ours registry skip) policy step where
  assumed := ⟨step, hstep, hskip, rfl, rfl, step.action.canMake_assumed⟩
  applied := (step.action.returns_apply_canMake policy).imp fun _ hr change hchange =>
    ⟨step, hstep, hskip, rfl, rfl, hr change hchange⟩

/-- Where a log names a step, the step is at work. -/
theorem Names.atWork (h : Names o log calls) : ∃ id action, AtWork o log calls id action := by
  cases h with
  | applying hf hbegins => exact ⟨_, _, .applying hf hbegins⟩
  | @undoing e action he haction hbegins =>
    have hm : (⟨e.step, e.action, e.change⟩ : Made) ∈ leftover log :=
      mem_leftover.2 (.inl (List.mem_map_of_mem he))
    exact ⟨_, _, .undoing hm haction hbegins⟩
  | @assuming f hf hbegins =>
    exact ⟨_, _, .undoing (mem_leftover.2 (.inr ⟨f, hf, rfl⟩)) rfl hbegins⟩

/-- A step at work operates on its own unit only. -/
theorem AtWork.step (hlog : Logged (Ours registry skip) log) (h : AtWork o log calls id action)
    {c : HostCall} (hc : c ∈ calls) (hunit : c.operated? = some unit) :
    ∃ step ∈ registry.steps, step.id = id ∧ step.id ∉ skip ∧ step.action.operated? = some unit := by
  cases h with
  | @applying f hf hbegins =>
    obtain ⟨step, hstep, hskip, hid, haction, -⟩ := hlog.inFlight f hf
    have hsame : f.action = step.action := Option.some.inj haction
    rw [hsame] at hbegins
    exact ⟨step, hstep, hid.symm, hskip,
      Begins.only (step.action.only_apply_operated o.retry) hbegins c hc unit hunit⟩
  | @undoing m action hm haction hbegins =>
    obtain ⟨step, hstep, hskip, hid, haction', hmake⟩ := hlog.leftover hm
    obtain rfl : action = step.action := Option.some.inj (haction.symm.trans haction')
    exact ⟨step, hstep, hid.symm, hskip,
      Begins.only (step.action.only_rollback_operated o.retry hmake) hbegins c hc unit hunit⟩

section Reached

variable {p : Effects (Except RunError RunReport)} {t : Chronicle}

/-- All that the logs of a run say was made is what its steps can make. -/
theorem allLogged_ours (hr : (o.run registry skip).run.Reaches Chronicle.setting {} p t) :
    AllLogged (Ours registry skip) t.toAccount := by
  have hlogged : (o.run registry skip).run.Ensures Account.setting (AllLogged (Ours registry skip))
      (fun _ _ => True) {} := ensures_logged fun _ => makes_ours o.retry
  exact ((Chronicle.ensures_of_account (s := {}) hlogged).sound hr).now

/-- **A run operates on a unit only for a registered step** that is not to be skipped and may operate
on the unit. -/
theorem Operates.step (hr : (o.run registry skip).run.Reaches Chronicle.setting {} p t)
    (h : Operates o p t unit id) :
    ∃ step ∈ registry.steps, step.id = id ∧ step.id ∉ skip ∧ step.action.operated? = some unit := by
  obtain ⟨c, k, log, action, -, hunit, hlog, hwork⟩ := h
  exact hwork.step (allLogged_ours hr log (List.mem_of_mem_head? hlog)) (by simp) hunit

/-- **Each operation of a run is made for a step.** -/
theorem exists_operates (hb : registry.Built) {c : HostCall}
    {k : c.Reply → Effects (Except RunError RunReport)}
    (hr : (o.run registry skip).run.Reaches Chronicle.setting {} (.ask (.host c) k) t)
    (hunit : c.operated? = some unit) : ∃ id, Operates o (.ask (.host c) k) t unit id := by
  obtain ⟨-, log, hlog, hnames⟩ := Ahead.of_reaches (ensures_ahead hb) (fun _ ht => ht) hr
  obtain ⟨id, action, hwork⟩ := hnames.atWork
  exact ⟨id, c, k, log, action, rfl, hunit, hlog, hwork⟩

end Reached

end Provision
