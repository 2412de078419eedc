import Mathlib.Data.List.Pairwise
import Provision.Proofs.Run.Attainable
import Provision.Proofs.Run.Restored
import Provision.Proofs.Run.Sites

/-!
# Steps that contend for a unit

Nothing keeps two steps from being about one unit, be it under one name or under two that are one once
they are normalised. What one of them brings about the other one may take back.

* `ServiceUnit.Contradicts`: one unit cannot be as it is asked for twice.
* `Registry.OperateApart`: no two steps may operate on one unit.
* `OperatesAlone`: whenever a run operates on a unit, it is for one step.
* `operates_alone_iff`: **a run operates on each unit for one step only if and only if no two steps may
  operate on one unit**, and then its logs never say of two steps that contradict each other that both
  were applied.
* `operates_for_both`: a unit that is started for one step and stopped for another.
-/

namespace Provision

open Script Orchestrator Provision.Units

/-! ### Units that are asked for twice -/

/-- Two units are one, and what is asked of it cannot be had at once. -/
def ServiceUnit.Contradicts (unit unit' : ServiceUnit) : Prop :=
  unit.unitName = unit'.unitName ∧ ((∃ b, unit.enabled = some b ∧ unit'.enabled = some !b) ∨
    ∃ b, unit.active = some b ∧ unit'.active = some !b)

namespace ServiceUnit.Contradicts

variable {unit unit' : ServiceUnit}

theorem symm (h : unit.Contradicts unit') : unit'.Contradicts unit := by
  obtain ⟨hname, ⟨b, h, h'⟩ | ⟨b, h, h'⟩⟩ := h
  · exact ⟨hname.symm, .inl ⟨!b, h', by rw [Bool.not_not]; exact h⟩⟩
  · exact ⟨hname.symm, .inr ⟨!b, h', by rw [Bool.not_not]; exact h⟩⟩

theorem irrefl (h : unit.Contradicts unit) : False := by
  obtain ⟨-, ⟨b, h, h'⟩ | ⟨b, h, h'⟩⟩ := h <;>
    exact Bool.not_ne_self b (Option.some.inj (h'.symm.trans h))

/-- What is asked of a unit may take an operation. -/
theorem operated (h : unit.Contradicts unit') :
    (StepAction.service unit).operated? = some unit.unitName ∧
      (StepAction.service unit').operated? = some unit.unitName := by
  have hasked : ∀ {unit unit' : ServiceUnit}, unit.Contradicts unit' → missableOps unit ≠ [] := by
    rintro unit unit' ⟨-, ⟨b, h, -⟩ | ⟨b, h, -⟩⟩ <;> cases b <;> simp [missableOps, h]
  refine ⟨if_neg (hasked h), ?_⟩
  rw [h.1]
  exact if_neg (hasked h.symm)

end ServiceUnit.Contradicts

/-- The log says that an action was applied. -/
def RunLog.Applied (log : RunLog) (action : StepAction) : Prop :=
  ∃ e ∈ log.entries, ∃ change, e.result = .applied change ∧ e.action = some action

/-- No two different steps that are not to be skipped may operate on one unit. -/
def Registry.OperateApart (registry : Registry) (skip : List String) : Prop :=
  ∀ a ∈ registry.steps, ∀ b ∈ registry.steps, a.id ∉ skip → b.id ∉ skip →
    ∀ unit, a.action.operated? = some unit → b.action.operated? = some unit → a.id = b.id

/-- Where no two service steps are about one unit no two steps operate on one. -/
theorem Registry.UnitsDiffer.operateApart {registry : Registry} (h : registry.UnitsDiffer)
    (skip : List String) : registry.OperateApart skip := by
  have hoperated : ∀ {action : StepAction} {unit : String}, action.operated? = some unit →
      ∃ wanted, action = .service wanted ∧ wanted.unitName = unit := by
    rintro (spec | wanted) unit hunit
    · cases hunit
    · exact ⟨wanted, rfl, Option.some.inj (Option.ite_none_left_eq_some.1 hunit).2⟩
  have : Std.Symm fun a b : Step => ∀ unit unit', a.action = .service unit →
      b.action = .service unit' → unit.unitName ≠ unit'.unitName :=
    ⟨fun a b hab unit unit' ha hb => (hab unit' unit hb ha).symm⟩
  intro a ha b hb _ _ unit hunit hunit'
  by_contra hne
  obtain ⟨wanted, hwanted, hname⟩ := hoperated hunit
  obtain ⟨wanted', hwanted', hname'⟩ := hoperated hunit'
  exact List.Pairwise.forall h ha hb (fun hab => hne (congrArg Step.id hab)) wanted wanted'
    hwanted hwanted' (hname.trans hname'.symm)

namespace Orchestrator

open Chronicle

variable {o : Orchestrator} {registry : Registry} {skip : List String} {log : RunLog} {plan : RunPlan}
  {s t : Chronicle}

/-- Wherever a run is about to operate on a unit, and wherever it is later, it is for one step. -/
def OperatesAlone (o : Orchestrator) (registry : Registry) (skip : List String) : Prop :=
  ∀ p s q t, (o.run registry skip).run.Reaches setting {} p s → p.Reaches setting s q t →
    ∀ unit id id', Operates o p s unit id → Operates o q t unit id' → id = id'

/-- Steps that may operate on one unit contend for it in some run. -/
theorem OperatesAlone.apart (h : OperatesAlone o registry skip)
    (hplan : checkedPlan registry skip = .ok plan) : registry.OperateApart skip := by
  intro a ha b hb hskip hskip' unit hunit hunit'
  by_contra hne
  have hperm := Registry.plan_perm (plan_of_checkedPlan hplan)
  obtain ⟨before, after, hsplit⟩ := List.append_of_mem (hperm.mem_iff.2 ha)
  have hmem : b ∈ before ++ a :: after := hsplit ▸ hperm.mem_iff.2 hb
  -- either step may come first in the plan
  rcases List.mem_append.1 hmem with hmem | hmem
  · obtain ⟨before', between, rfl⟩ := List.append_of_mem hmem
    rw [List.append_assoc, List.cons_append] at hsplit
    obtain ⟨p, s, q, t, hp, hq, hfirst, hsecond⟩ :=
      exists_operates_twice (o := o) hplan hsplit hskip' hskip hunit' hunit
    exact hne (h p s q t hp hq unit _ _ hfirst hsecond).symm
  · rcases List.mem_cons.1 hmem with rfl | hmem
    · exact hne rfl
    · obtain ⟨between, after', rfl⟩ := List.append_of_mem hmem
      obtain ⟨p, s, q, t, hp, hq, hfirst, hsecond⟩ :=
        exists_operates_twice (o := o) hplan hsplit hskip hskip' hunit hunit'
      exact hne (h p s q t hp hq unit _ _ hfirst hsecond)

/-- A run that cannot be planned does nothing. -/
theorem eq_of_unplanned {e : RunError} (hplan : checkedPlan registry skip = .error e)
    {p : Effects (Except RunError RunReport)} (hr : (o.run registry skip).run.Reaches setting {} p s) :
    p = .done (.error e) ∧ s = {} := by
  rw [run_of_checkedPlan_error hplan] at hr
  cases hr
  exact ⟨rfl, rfl⟩

/-- Steps that operate on different units operate on them alone. -/
theorem operatesAlone_of_apart
    (h : ∀ plan, checkedPlan registry skip = .ok plan → registry.OperateApart skip) :
    OperatesAlone o registry skip := by
  intro p s q t hp hq unit id id' hfirst hsecond
  cases hplan : checkedPlan registry skip with
  | error e =>
    obtain ⟨rfl, -⟩ := eq_of_unplanned hplan hp
    obtain ⟨c, k, _, _, hask, -⟩ := hfirst
    cases hask
  | ok plan =>
    obtain ⟨a, ha, rfl, hskip, hunit⟩ := hfirst.step hp
    obtain ⟨b, hb, rfl, hskip', hunit'⟩ := hsecond.step (hp.trans hq)
    exact h plan hplan a ha b hb hskip hskip' unit hunit hunit'

/-- **No two steps that contradict each other** are said to be applied where the steps operate on
different units. -/
theorem not_contradicts (hb : registry.Built) (hapart : registry.OperateApart skip)
    {p : Effects (Except RunError RunReport)} (hr : (o.run registry skip).run.Reaches setting {} p t)
    (hlog : log ∈ t.saved) {unit unit' : ServiceUnit} (h : log.Applied (.service unit))
    (h' : log.Applied (.service unit')) : ¬ unit.Contradicts unit' := by
  intro hcontra
  -- what was applied is the action of a registered step
  have hstep : ∀ {action}, log.Applied action → ∃ step ∈ registry.steps, step.id ∉ skip ∧
      step.action = action := by
    rintro action ⟨e, he, change, hresult, haction⟩
    have hmade : e.made? = some ⟨e.step, e.action, change⟩ := by
      rw [LogEntry.made?, hresult]
    obtain ⟨step, hstep, hskip, -, hsame, -⟩ := (allLogged_ours hr log hlog).made e he _ hmade
    exact ⟨step, hstep, hskip, Option.some.inj (hsame.symm.trans haction)⟩
  obtain ⟨a, ha, hskip, hunit⟩ := hstep h
  obtain ⟨b, hb', hskip', hunit'⟩ := hstep h'
  obtain ⟨hoperated, hoperated'⟩ := hcontra.operated
  have hid := hapart a ha b hb' hskip hskip' unit.unitName (hunit ▸ hoperated) (hunit' ▸ hoperated')
  obtain rfl : a = b := List.inj_on_of_nodup_map hb.nodup ha hb' hid
  obtain rfl : unit = unit' := StepAction.service.inj (hunit.symm.trans hunit')
  exact hcontra.irrefl

/-- **Each operation of a run is made for a step, and each unit is operated on for one step only if
and only if no two steps may operate on one unit.** Then no log of the run says of two steps that
contradict each other that both were applied. -/
theorem operates_alone_iff (hb : registry.Built) :
    (∀ c k t unit, (o.run registry skip).run.Reaches setting {} (.ask (.host c) k) t →
      c.operated? = some unit → ∃ id, Operates o (.ask (.host c) k) t unit id) ∧
    (OperatesAlone o registry skip ↔
      ∀ plan, checkedPlan registry skip = .ok plan → registry.OperateApart skip) ∧
    (OperatesAlone o registry skip →
      ∀ p t, (o.run registry skip).run.Reaches setting {} p t → ∀ log ∈ t.saved, ∀ unit unit',
        log.Applied (.service unit) → log.Applied (.service unit') → ¬ unit.Contradicts unit') := by
  refine ⟨fun c k t unit hr hunit => exists_operates hb hr hunit,
    ⟨fun h plan hplan => h.apart hplan, operatesAlone_of_apart⟩, ?_⟩
  intro h p t hr log hlog unit unit' hunit hunit'
  cases hplan : checkedPlan registry skip with
  | error e =>
    obtain ⟨-, rfl⟩ := eq_of_unplanned hplan hr
    cases hlog
  | ok plan => exact not_contradicts hb (h.apart hplan) hr hlog hunit hunit'

/-- The units of two steps differ, and the second one is operated on for its own step. -/
theorem operates_alone_inTurn : OperatesAlone ⟨default, .immediate 2⟩ inTurn [] ∧ ∃ k t id,
    ((⟨default, .immediate 2⟩ : Orchestrator).run inTurn []).run.Reaches setting {}
      (.ask (.host (.issue .start "b.service")) k) t ∧
    Operates ⟨default, .immediate 2⟩ (.ask (.host (.issue .start "b.service")) k) t "b.service" id := by
  have hdiffer : inTurn.UnitsDiffer := by
    refine List.pairwise_pair.2 ?_
    rintro _ _ ⟨⟩ ⟨⟩
    decide
  obtain ⟨k, t, hrun⟩ : ∃ k t,
      Chronicle.walk maskedReply 18 ((⟨default, .immediate 2⟩ : Orchestrator).run inTurn []).run {} =
        some (.ask (.host (.issue .start "b.service")) k, t) := ⟨_, _, rfl⟩
  have hr := Chronicle.reaches_of_walk hrun
  obtain ⟨id, hid⟩ := (operates_alone_iff built_inTurn).1 _ k t "b.service" hr rfl
  refine ⟨(operates_alone_iff built_inTurn).2.1.2 fun plan _ => ?_, k, t, id, hr, hid⟩
  exact hdiffer.operateApart []

/-- Two steps about one unit, which they name differently. -/
def contended : Registry :=
  ⟨[⟨"on", [], .service { name := "web", active := some true }⟩,
    ⟨"off", ["on"], .service { name := "web.service", active := some false }⟩]⟩

/-- A unit is started for one step and stopped for another. The run completes, and its log says that
both were applied, though they contradict each other. -/
theorem operates_for_both : contended.Built ∧ ¬ OperatesAlone ⟨default, .immediate 2⟩ contended [] ∧
    ∃ report t log on off, ((⟨default, .immediate 2⟩ : Orchestrator).run contended []).run.Reaches
      Stage.sound ⟨webHost [], []⟩ (.done (.ok report)) t ∧ report.status = .completed ∧
    t.host.manager.journal = [(.start, "web.service"), (.stop, "web.service")] ∧
    t.saved.head? = some log ∧ log.Applied (.service on) ∧ log.Applied (.service off) ∧
    on.Contradicts off := by
  refine ⟨?_, ?_, ?_⟩
  · exact Registry.built_ofPlanFile
      (show Registry.ofPlanFile ⟨1, none, contended.steps⟩ = .ok contended from rfl)
  · intro h
    have hapart : contended.OperateApart [] :=
      h.apart (show checkedPlan contended [] = .ok ⟨contended.steps⟩ from rfl)
    have hsame : "on" = "off" := hapart _ List.mem_cons_self _
      (List.mem_cons_of_mem _ List.mem_cons_self) List.not_mem_nil List.not_mem_nil "web.service" rfl rfl
    exact absurd hsame (by decide)
  · obtain ⟨report, t, log, hwalk, hstatus, hjournal, hlog, hentries⟩ : ∃ report t log,
        ((⟨default, .immediate 2⟩ : Orchestrator).run contended []).run.walk Stage.play
          (Stage.admits fun _ _ => false) 60 ⟨webHost [], []⟩ = some (.done (.ok report), t) ∧
        report.status = .completed ∧
        t.host.manager.journal = [(.start, "web.service"), (.stop, "web.service")] ∧
        t.saved.head? = some log ∧ log.Applied (.service { name := "web", active := some true }) ∧
        log.Applied (.service { name := "web.service", active := some false }) :=
      ⟨_, _, _, rfl, rfl, rfl, rfl, ⟨_, List.mem_cons_self, _, rfl, rfl⟩,
        ⟨_, List.mem_cons_of_mem _ List.mem_cons_self, _, rfl, rfl⟩⟩
    exact ⟨report, t, log, _, _, Reaches.of_walk Stage.sound_play hwalk, hstatus, hjournal, hlog,
      hentries.1, hentries.2, rfl, .inr ⟨true, rfl, rfl⟩⟩

end Orchestrator

end Provision
