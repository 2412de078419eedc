import Provision.Proofs.Mock.Untroubled
import Provision.Proofs.Run.Convergence

/-!
# A second run finds nothing to do

A run that was completed has met every step that was not skipped. A run after it finds them met,
so it changes nothing, and all that it does to units is to refresh those that are to be
refreshed on every run.

* `Observed`, `Observed.setting`: a stage with the calls that were made to the host.
* `Observed.smooth`: the setting in which none of them fails.
* `StepAction.Repeats`: the change of an action that was met before.
* `ensures_apply_repeats`: **applying an action that is met makes no other change.**
* `Idling`: the rest of the steps are met; this is kept by each step.
* `run_repeats`: **a second run that no call fails in is completed and changes nothing.**
-/

namespace Provision

open Script

/-- A stage, with the calls that were made to the host and whether each succeeded. -/
structure Observed extends Stage where
  calls : List (HostCall × Bool) := []

namespace Observed

variable {links : Path → Option Path} {s t : Observed}

/-- What a request adds to the calls. -/
def noted : (e : Effect) → e.Reply → List (HostCall × Bool)
  | .host c, x => [(c, x.isOk)]
  | .resolve _, _ | .pause _, _ | .cancelled, _ | .now, _ | .process, _ | .lock, _ | .unlock, _
  | .prepare, _ | .save _, _ | .load _, _ | .latest, _ => []

/-- The setting in which the host answers every call itself and nothing else is in the way, and
the calls are noted. -/
def setting (links : Path → Option Path) : Setting Effect.interface Observed := fun s e x s' =>
  Stage.undisturbed links s.toStage e x s'.toStage ∧ s'.calls = s.calls ++ noted e x

/-- The same where no call fails. -/
def smooth (links : Path → Option Path) : Setting Effect.interface Observed := fun s e x s' =>
  setting links s e x s' ∧ ∀ call ∈ noted e x, call.2 = true

theorem serial_setting (s : Observed) (e : Effect) : ∃ x s', setting links s e x s' := by
  obtain ⟨x, s', hx⟩ := @Stage.serial_undisturbed links s.toStage e
  exact ⟨x, ⟨s', s.calls ++ noted e x⟩, hx, rfl⟩

/-- No call is forgotten. -/
theorem calls_grow {α : Type} {p q : Effects α} (h : p.Reaches (setting links) s q t) :
    s.calls <+: t.calls := by
  induction h with
  | here => exact List.prefix_rfl
  | ask hx _ ih =>
    refine .trans ?_ ih
    rw [hx.2]
    exact List.prefix_append _ _

/-- What was come to without a call that failed is come to where no call fails. -/
theorem smooth_of_reaches {α : Type} {p q : Effects α} (h : p.Reaches (setting links) s q t)
    (hok : ∀ call ∈ t.calls, call.2 = true) : p.Reaches (smooth links) s q t := by
  induction h with
  | here => exact .here _ _
  | ask hx hr ih =>
    refine .ask ⟨hx, fun call hcall => ?_⟩ (ih hok)
    refine hok call ((calls_grow hr).subset ?_)
    rw [hx.2]
    exact List.mem_append_right _ hcall

theorem quiet_smooth : Quiet (smooth links) := by
  rintro ⟨s, calls⟩ e x ⟨s', calls'⟩ he ⟨⟨hx, hcalls⟩, -⟩
  obtain rfl : s' = s := Stage.lawful_undisturbed.quiet s e x s' he hx
  obtain rfl : calls' = calls := by cases e <;> first | simpa [noted] using hcalls | cases he
  rfl

/-- The observed stage with one more log on disk. -/
def save (s : Observed) (log : RunLog) : Observed := { s with toStage := s.toStage.save log }

theorem saving_smooth {always post : Observed → Prop} {log : RunLog}
    (h : always (s.save log) ∧ post (s.save log)) :
    Saving (smooth links) always (fun _ _ => False) post log s := by
  rintro x ⟨s', calls'⟩ ⟨⟨⟨rfl, hs'⟩, hcalls⟩, -⟩
  obtain rfl : s' = s.toStage.save log := hs'
  obtain rfl : calls' = s.calls := by simpa [noted] using hcalls
  exact h

/-- What is ensured on a stage is ensured while it is observed. -/
theorem ensures_of_stage {α : Type} {p : Effects α} {always : Stage → Prop} {post : α → Stage → Prop}
    (h : p.Ensures (Stage.undisturbed links) always post s.toStage) :
    p.Ensures (smooth links) (fun t => always t.toStage) (fun a t => post a t.toStage) s :=
  (Ensures.comap h (only_any p) trivial fun _ _ _ _ _ _ hx => ⟨hx.1.1, trivial⟩).mono
    (fun _ _ _ _ _ hx => hx) (fun _ ht => ht.2) fun _ _ _ hr => hr

/-- The replies of the host and of a state directory that nothing is wrong with. -/
def play (e : Effect) (s : Observed) : e.Reply × Observed :=
  ((Stage.play e s.toStage).1, ⟨(Stage.play e s.toStage).2, s.calls ++ noted e (Stage.play e s.toStage).1⟩)

theorem setting_play (s : Observed) (e : Effect) : setting some s e (play e s).1 (play e s).2 :=
  ⟨Stage.undisturbed_play s.toStage e, rfl⟩

/-- A call where no call fails. -/
theorem ensures_call_smooth {c : HostCall} {always : Observed → Prop} {post : c.Reply → Observed → Prop}
    (hs : always s) (h : (Mock.Host.answer c s.host).1.isOk = true →
      always ⟨{ s.toStage with host := (Mock.Host.answer c s.host).2 }, s.calls ++ [(c, true)]⟩ ∧
      post (Mock.Host.answer c s.host).1
        ⟨{ s.toStage with host := (Mock.Host.answer c s.host).2 }, s.calls ++ [(c, true)]⟩) :
    (Effect.call c).Ensures (smooth links) always post s := by
  refine (ensures_call s).2 ⟨hs, ?_⟩
  rintro x ⟨s', calls'⟩ ⟨⟨⟨rfl, hs'⟩, hcalls⟩, hok⟩
  have hok : (Mock.Host.answer c s.host).1.isOk = true := hok _ List.mem_cons_self
  obtain rfl : s' = { s.toStage with host := (Mock.Host.answer c s.host).2 } := hs'
  obtain rfl : calls' = s.calls ++ [(c, true)] := by
    rw [← hok]
    exact hcalls
  exact h hok

end Observed

/-- The calls that are made where an action is met: those that look, and the refresh of the
unit. -/
def HostCall.Refreshes (action : StepAction) : HostCall → Prop
  | find _ | unitState _ | reloadManager => True
  | issue op name => ∃ unit refresh, action = .service unit ∧ unit.refresh = some refresh ∧
    op = refresh.op ∧ name = unit.unitName
  | mount _ | unmount _ | undo _ _ => False

/-- The change of an action that was met before: nothing was mounted, and the unit was at most
refreshed. -/
def StepAction.Repeats : StepAction → Change → Prop
  | mount _, change => change = .mount false
  | service unit, change => change = .service [] ∨
    ∃ refresh, unit.refresh = some refresh ∧ change = .service [refresh.op]

section Apply

open Observed

variable {links : Path → Option Path} {s : Observed}

/-- All calls that were added only look or refresh. -/
def Spares (action : StepAction) (s t : Observed) : Prop :=
  ∀ call ∈ t.calls, call ∈ s.calls ∨ call.1.Refreshes action

theorem Spares.refl (action : StepAction) (s : Observed) : Spares action s s := fun _ => .inl

theorem Spares.call {action : StepAction} {t : Observed} (h : Spares action s t) {c : HostCall}
    (hc : c.Refreshes action) (h' : Mock.Host) :
    Spares action s ⟨{ t.toStage with host := h' }, t.calls ++ [(c, true)]⟩ := by
  intro call hcall
  rcases List.mem_append.1 hcall with hcall | hcall
  · exact h call hcall
  · exact .inr (List.mem_singleton.1 hcall ▸ hc)

namespace Mount

variable {spec : MountSpec}

/-- What is met matches when it is looked at. -/
theorem ensures_inspect_matching (hmet : (StepAction.mount spec).Met links s.host) :
    (inspect spec).Ensures (smooth links) (Spares (.mount spec) s) (fun r _ => r = .ok .matching) s := by
  obtain ⟨e, hfind, hsat⟩ := hmet
  have hreply : (Mock.Host.answer (.find spec.target) s.host).1 = .ok (some e) := congrArg Except.ok hfind
  have hspares := (Spares.refl (.mount spec) s).call (c := .find spec.target) trivial s.host
  refine ensures_bind.2 (ensures_call_smooth (Spares.refl _ _) fun _ => ⟨hspares, ?_⟩)
  rw [hreply]
  refine ensures_bind.2 ((ensures_resolutions _).2 ⟨hspares, fun resolve t ht => ?_⟩)
  obtain rfl : resolve = links := ht.1.1.1
  obtain rfl : t = _ := quiet_smooth _ _ _ _ rfl ht
  refine ⟨hspares, hspares, ?_⟩
  rw [if_pos hsat]

/-- What is met is left alone. -/
theorem ensures_mount_repeats (hmet : (StepAction.mount spec).Met links s.host) :
    (mount spec).Ensures (smooth links) (Spares (.mount spec) s) (fun r _ => r = .ok (.mount false)) s := by
  refine ensures_bind.2 ((ensures_inspect_matching hmet).imp ?_)
  rintro r t ht rfl
  exact ⟨ht, rfl⟩

end Mount

namespace Units

variable {unit : ServiceUnit}

theorem ensures_reloadIfAsked_met (hmet : (StepAction.service unit).Met links s.host) :
    (reloadIfAsked unit).Ensures (smooth links) (Spares (.service unit) s)
      (fun r t => r = .ok () ∧ (StepAction.service unit).Met links t.host) s := by
  unfold reloadIfAsked
  split
  · have hspares := (Spares.refl (.service unit) s).call (c := .reloadManager) trivial
    exact ensures_call_smooth (Spares.refl _ _) fun _ => ⟨hspares _, rfl, hmet⟩
  · exact ⟨Spares.refl _ _, rfl, hmet⟩

/-- Nothing but the refresh is missing of a unit that is met. -/
theorem ensures_diff_met {t : Observed} (ht : Spares (.service unit) s t)
    (hmet : (StepAction.service unit).Met links t.host) :
    (diff unit).Ensures (smooth links) (Spares (.service unit) s)
      (fun r _ => ∃ state, delta unit state = refreshment unit state ∧ r = .ok (delta unit state)) t := by
  obtain ⟨u, hu, hwanted⟩ := hmet
  have hloaded : (t.host.manager.state unit.unitName).isLoaded = true := by
    rw [Mock.Manager.isLoaded_state, hu]
    rfl
  have hdelta : delta unit (t.host.manager.state unit.unitName) =
      refreshment unit (t.host.manager.state unit.unitName) :=
    delta_of_wanted fun b v hv => (Mock.Manager.reads_state hu b).trans (hwanted b v hv)
  have hspares := ht.call (c := .unitState unit.unitName) trivial t.host
  refine ensures_bind.2 (ensures_bind.2 (ensures_call_smooth ht fun _ => ⟨hspares, ?_⟩))
  refine ⟨hspares, hspares, _, hdelta, ?_⟩
  rw [show known unit (t.host.manager.state unit.unitName) = .ok (t.host.manager.state unit.unitName) from
    if_pos hloaded]
  rfl

/-- The refresh of the unit is issued, if there is one. -/
theorem ensures_issueAll_refresh {t : Observed} (ht : Spares (.service unit) s t) (state : UnitState) :
    (issueAll unit [] [] (refreshment unit state)).Ensures (smooth links) (Spares (.service unit) s)
      (fun r _ => r = (.ok (), [])) t := by
  obtain hnone | ⟨refresh, hrefresh, hops⟩ := refreshment_cases unit state
  · rw [hnone]
    exact ⟨ht, rfl⟩
  · rw [hops]
    have hcall : (HostCall.issue refresh.op unit.unitName).Refreshes (.service unit) :=
      ⟨unit, refresh, rfl, hrefresh, rfl, rfl⟩
    have hspares := ht.call hcall (Mock.Host.answer (.issue refresh.op unit.unitName) t.host).2
    refine ensures_bind.2 (ensures_call_smooth ht fun hok => ⟨hspares, ?_⟩)
    cases hreply : (Mock.Host.answer (.issue refresh.op unit.unitName) t.host).1 with
    | error e =>
      rw [hreply] at hok
      cases hok
    | ok _ => exact ⟨hspares, rfl⟩

/-- A unit that is met is at most refreshed. -/
theorem ensures_reconcile_repeats (hmet : (StepAction.service unit).Met links s.host) :
    (reconcile unit []).Ensures (smooth links) (Spares (.service unit) s) (fun r _ => ∃ state,
      delta unit state = refreshment unit state ∧ r = (.ok (.service (delta unit state)), [])) s := by
  refine ensures_bind.2 ((ensures_reloadIfAsked_met hmet).imp ?_)
  rintro r t ht ⟨rfl, hmet⟩
  refine ensures_bind.2 ((ensures_diff_met ht hmet).imp ?_)
  rintro r u hu ⟨state, hdelta, rfl⟩
  dsimp only
  rw [hdelta]
  refine ensures_bind.2 ((ensures_issueAll_refresh hu state).imp ?_)
  rintro r v hv rfl
  exact ⟨hv, state, hdelta, by rw [hdelta]; rfl⟩

end Units

/-- **Applying an action that is met makes no other change** than to refresh its unit. -/
theorem StepAction.ensures_apply_repeats (policy : Retry) {action : StepAction}
    (hmet : action.Met links s.host) : (action.apply policy).Ensures (smooth links) (Spares action s)
      (fun r _ => ∃ change, r = .ok change ∧ action.Repeats change) s := by
  have hpause : ∀ s d x s', smooth links s (.pause d) x s' → s' = s :=
    fun s d x s' hx => quiet_smooth s _ x s' rfl hx
  cases action with
  | mount spec =>
    refine policy.ensures_repeating (fun t => t = s) hpause ?_ rfl
    rintro t rfl
    refine (Mount.ensures_mount_repeats hmet).imp ?_
    rintro r u - rfl
    exact ⟨⟨_, rfl, rfl⟩, fun e he => by cases he⟩
  | service unit =>
    have hattempts : (policy.attempts (Units.reconcile unit) []).Ensures (smooth links)
        (Spares (.service unit) s) (fun r _ => ∃ state, Units.delta unit state =
          Units.refreshment unit state ∧ r = (.ok (.service (Units.delta unit state)), [])) s := by
      refine policy.ensures_attempts (fun U t => U = [] ∧ t = s) _ hpause ?_ ⟨rfl, rfl⟩
      rintro U t ⟨rfl, rfl⟩
      refine (Units.ensures_reconcile_repeats hmet).imp ?_
      rintro r u - ⟨state, hdelta, rfl⟩
      exact ⟨⟨state, hdelta, rfl⟩, fun e he => by cases he⟩
    refine ensures_bind.2 (hattempts.imp ?_)
    rintro r t ht ⟨state, hdelta, rfl⟩
    refine ⟨ht, _, rfl, ?_⟩
    rw [Units.mergeOps_delta, hdelta]
    obtain hnone | ⟨refresh, hrefresh, hops⟩ := Units.refreshment_cases unit state
    · exact .inl (congrArg Change.service hnone)
    · exact .inr ⟨refresh, hrefresh, congrArg Change.service hops⟩

end Apply

namespace Orchestrator

open Observed

variable {o : Orchestrator} {registry : Registry} {skip : List String} {links : Path → Option Path}
  {steps rest : List Step} {report : RunReport}

/-- What is recorded of a step that was met before, or is to be skipped. -/
def Repeated (skip : List String) (step : Step) (e : LogEntry) : Prop :=
  e.step = step.id ∧ if step.id ∈ skip then e.result = .skipped
    else ∃ change, e.result = .applied change ∧ step.action.Repeats change

/-- The calls that a run makes whose steps are all met. -/
def RefreshesOnly (skip : List String) (steps : List Step) (s : Observed) : Prop :=
  ∀ call ∈ s.calls, ∃ step ∈ steps, step.id ∉ skip ∧ call.1.Refreshes step.action

/-- Some of the steps have been taken and there was nothing to do; the rest are met. -/
structure Idling (links : Path → Option Path) (skip : List String) (steps rest : List Step) (log : RunLog)
    (s : Observed) : Prop where
  taken : ∃ done, steps = done ++ rest ∧ List.Forall₂ (Repeated skip) done log.entries
  met : AllMet links skip rest s.host
  calls : RefreshesOnly skip steps s

/-- A step that is taken is recorded as one that was met before. -/
theorem Idling.next {log : RunLog} {step : Step} {s : Observed}
    (h : Idling links skip steps (step :: rest) log s) {entries : List LogEntry} {e : LogEntry}
    (hentries : entries = log.entries ++ [e]) (he : Repeated skip step e) :
    ∃ done, steps = done ++ rest ∧ List.Forall₂ (Repeated skip) done entries := by
  obtain ⟨done, hdone, hlog⟩ := h.taken
  refine ⟨done ++ [step], by simp [hdone], ?_⟩
  rw [hentries]
  exact List.rel_append hlog (.cons he .nil)

/-- What a run comes to whose steps were all met before. -/
structure RanIdly (registry : Registry) (skip : List String) (report : RunReport) (s : Observed) :
    Prop where
  completed : report.status = .completed
  recorded : ∃ plan log, checkedPlan registry skip = .ok plan ∧ s.saved.head? = some log ∧
    report = .ofLog log true ∧ List.Forall₂ (Repeated skip) plan.steps log.entries
  calls : RefreshesOnly skip registry.steps s

/-- Taking a step that is met changes nothing at the others, and is recorded as what it is. -/
theorem ensures_apply_idling (policy : Retry) {step : Step} {log : RunLog} {s : Observed}
    (hskip : step.id ∉ skip) (hapart : steps.Pairwise Registry.Apart)
    (h : Idling links skip steps (step :: rest) log s) :
    (step.action.apply policy).Ensures (smooth links) (fun _ => True) (fun r t =>
      AllMet links skip rest t.host ∧ RefreshesOnly skip steps t ∧
        ∃ change, r = .ok change ∧ step.action.Repeats change) s := by
  have hlawful : Stage.Lawful (Stage.undisturbed links) := Stage.lawful_undisturbed
  have helsewhere := ensures_of_stage
    (hlawful.ensures_elsewhere (step.action.only_apply policy) s.toStage)
  have happly := StepAction.ensures_apply_repeats policy (h.met step List.mem_cons_self hskip)
  obtain ⟨done, hdone, -⟩ := h.taken
  rw [hdone] at hapart
  have hrest := (List.pairwise_cons.1 (List.pairwise_append.1 hapart).2.1).1
  refine (happly.and helsewhere).mono (fun _ _ _ _ _ hx => hx) (fun _ _ => trivial) ?_
  rintro r t ⟨hspares, -, hothers⟩ ⟨hr, -⟩
  refine ⟨fun step' hstep' hskip' => ?_, fun call hcall => ?_, hr⟩
  · exact (h.met step' (List.mem_cons_of_mem _ hstep') hskip').congr
      (hothers _ (hrest step' hstep').symm)
  · rcases hspares call hcall with hcall | hcall
    · exact h.calls call hcall
    · exact ⟨step, by simp [hdone], hskip, hcall⟩

/-- **The forward half finds nothing to do in any step.** -/
theorem ensures_forward_idling (hapart : steps.Pairwise Registry.Apart) {log : RunLog} {s : Observed}
    (h : Idling links skip steps steps log s) :
    (o.forward skip log [] steps).run.Ensures (smooth links) (fun _ => True)
      (onResult (fun p t => p.halt = .complete ∧ Idling links skip steps [] p.log t) fun _ _ => False) s := by
  let inv (rest : List Step) (log : RunLog) (_ : List Made) (s : Observed) : Prop :=
    Idling links skip steps rest log s
  have hinv : inv steps log [] s := h
  refine ensures_forward_stopped quiet_smooth (fun _ _ _ _ _ => trivial) ?_ ?_ ?_ ?_ steps log [] s hinv
  · exact fun log made s h => ⟨rfl, h⟩
  · rintro step rest log made s ⟨⟨⟨hstop, -⟩, -⟩, -⟩ -
    cases hstop
  · rintro step rest log made s hskip h now
    refine saving_smooth ⟨trivial, h.next (e := ⟨step.id, .skipped, none, now⟩) rfl ⟨rfl, ?_⟩, ?_, h.calls⟩
    · rw [if_pos hskip]
    · exact fun step' hstep' => h.met step' (List.mem_cons_of_mem _ hstep')
  · rintro step rest log made s hskip h
    refine ensures_applyStep quiet_smooth trivial fun since => saving_smooth ⟨trivial, ?_⟩
    have hmarked : Idling links skip steps (step :: rest) (marking log step since)
        (s.save (marking log step since)) := ⟨h.taken, h.met, h.calls⟩
    refine (ensures_apply_idling o.retry hskip hapart hmarked).imp ?_
    rintro r t - ⟨hmet, hcalls, change, rfl, hrepeats⟩ now
    refine saving_smooth ⟨trivial, h.next (e := ⟨step.id, .applied change, some step.action, now⟩) rfl
      ⟨rfl, ?_⟩, hmet, hcalls⟩
    rw [if_neg hskip]
    exact ⟨change, rfl, hrepeats⟩

/-- A run whose steps are all met finds nothing to do. -/
theorem ensures_run_idly (hb : registry.Built) (hu : registry.UnitsDiffer) {plan : RunPlan}
    (hplan : checkedPlan registry skip = .ok plan) {t : Stage}
    (hmet : AllMet links skip registry.steps t.host) :
    (o.run registry skip).run.Ensures (smooth links) (fun _ => True)
      (onResult (RanIdly registry skip) fun _ _ => False) ⟨t, []⟩ := by
  have hperm := Registry.plan_perm (plan_of_checkedPlan hplan)
  have hapart := hb.plan_apart hu (plan_of_checkedPlan hplan)
  rw [run_of_checkedPlan hplan]
  refine ensures_locked_held quiet_smooth trivial ?_ ?_
  · rintro x ⟨⟨⟨rfl, -⟩, -⟩, -⟩ hne
    exact absurd rfl hne
  refine ensures_carryOut_prepared quiet_smooth trivial ?_ fun id started => ?_
  · rintro e ⟨⟨⟨hprepared, -⟩, -⟩, -⟩
    cases hprepared
  refine saving_smooth ⟨trivial, saving_smooth ⟨trivial, ?_⟩⟩
  have hstart : Idling links skip plan.steps plan.steps (running id started plan.ids)
      ((Observed.save ⟨t, []⟩ (RunLog.start id started plan.ids)).save (running id started plan.ids)) :=
    ⟨⟨[], rfl, .nil⟩, fun step hstep => hmet step (hperm.mem_iff.1 hstep), fun _ hcall => by cases hcall⟩
  refine (ensures_forward_idling hapart hstart).imp ?_
  rintro (e | ⟨log, made, halt⟩) u - hp
  · exact hp
  obtain ⟨rfl, ⟨done, hdone, hlog⟩, -, hcalls⟩ := hp
  obtain rfl : done = plan.steps := by simpa using hdone.symm
  show Finishing (smooth links) (fun _ => True) (fun _ _ => False) o (RanIdly registry skip) _ u
  refine ensures_pureE.2 ⟨trivial, fun now => saving_smooth ⟨trivial, rfl, ?_, fun call hcall => ?_⟩⟩
  · exact ⟨plan, _, hplan, rfl, rfl, hlog⟩
  obtain ⟨step, hstep, h⟩ := hcalls call hcall
  exact ⟨step, hperm.mem_iff.1 hstep, h⟩

/-- **A second run finds nothing to do**: after a run that was completed, whatever failed on the
way, a second one comes to an end, and if no call of it failed, it is completed, has made no
call but to look and to refresh units, and has recorded that no step changed anything. -/
theorem run_repeats {o o' : Orchestrator} {s t : Stage} (hb : registry.Built) (hu : registry.UnitsDiffer)
    (hrun : (o.run registry skip).run.Reaches (Stage.linked links) s (.done (.ok report)) t)
    (hstatus : report.status = .completed) :
    (∃ result u, (o'.run registry skip).run.Reaches (Observed.setting links) ⟨t, []⟩ (.done result) u) ∧
    ∀ result u, (o'.run registry skip).run.Reaches (Observed.setting links) ⟨t, []⟩ (.done result) u →
      (∀ call ∈ u.calls, call.2 = true) →
      ∃ report', result = .ok report' ∧ RanIdly registry skip report' u := by
  refine ⟨exists_reaches_done serial_setting _ _, fun result u hsecond hok => ?_⟩
  have hmet := ((ensures_run_met Stage.lawful_linked Stage.finds_linked hb hu s).sound hrun).2 hstatus
  cases hplan : checkedPlan registry skip with
  | error e =>
    rw [run_of_checkedPlan_error hplan] at hrun
    cases hrun
  | ok plan =>
    obtain ⟨-, hran⟩ := (ensures_run_idly hb hu hplan hmet).sound (smooth_of_reaches hsecond hok)
    cases result with
    | error e => exact hran.elim
    | ok report' => exact ⟨report', rfl, hran⟩

/-- A share, and a unit that needs it and is restarted on every run. -/
def restarted : Registry :=
  ⟨[⟨"share", [], .mount ⟨"tmpfs", ⟨"/srv"⟩, "tmpfs", []⟩⟩,
    ⟨"web", ["share"], .service
      { name := "web", enabled := some true, active := some true, refresh := some .restart }⟩]⟩

theorem built_restarted : restarted.Built :=
  Registry.built_ofPlanFile (show Registry.ofPlanFile ⟨1, none, restarted.steps⟩ = .ok restarted from rfl)

/-- The reply to starting the unit is lost in the first run. The second one looks at the share
and at the unit, and restarts the unit. -/
theorem run_repeats_restarted : restarted.UnitsDiffer ∧ ∃ report t report' u,
    ((⟨default, .immediate 2⟩ : Orchestrator).run restarted []).run.Reaches (Stage.linked some)
      ⟨webHost [⟨.start, "web.service", .lostReply, 1⟩, ⟨.disable, "web.service", .rejected, 1⟩], []⟩
      (.done (.ok report)) t ∧
    report.status = .completed ∧
    ((⟨default, .immediate 1⟩ : Orchestrator).run restarted []).run.Reaches (Observed.setting some) ⟨t, []⟩
      (.done (.ok report')) u ∧
    u.calls = [(.find ⟨"/srv"⟩, true), (.unitState "web.service", true),
      (.issue .restart "web.service", true)] ∧
    RanIdly restarted [] report' u := by
  have hu : restarted.UnitsDiffer := by simp [Registry.UnitsDiffer, restarted]
  obtain ⟨report, t, report', u, hwalk, hstatus, hwalk', hcalls⟩ : ∃ report t report' u,
      ((⟨default, .immediate 2⟩ : Orchestrator).run restarted []).run.walk Stage.play (fun _ _ => true) 60
        ⟨webHost [⟨.start, "web.service", .lostReply, 1⟩, ⟨.disable, "web.service", .rejected, 1⟩], []⟩ =
          some (.done (.ok report), t) ∧
      report.status = .completed ∧
      ((⟨default, .immediate 1⟩ : Orchestrator).run restarted []).run.walk Observed.play (fun _ _ => true) 60
        ⟨t, []⟩ = some (.done (.ok report'), u) ∧
      u.calls = [(.find ⟨"/srv"⟩, true), (.unitState "web.service", true),
        (.issue .restart "web.service", true)] := ⟨_, _, _, _, rfl, rfl, rfl, rfl⟩
  have hrun := Reaches.of_walk (fun s r _ => Stage.linked_play s r) hwalk
  have hsecond := Reaches.of_walk (fun s r _ => Observed.setting_play s r) hwalk'
  obtain ⟨_, hresult, hidly⟩ := (run_repeats built_restarted hu hrun hstatus).2 _ u hsecond
    (by simp [hcalls])
  obtain rfl := Except.ok.inj hresult
  exact ⟨hu, report, t, report', u, hrun, hstatus, hsecond, hcalls, hidly⟩

end Orchestrator

end Provision
