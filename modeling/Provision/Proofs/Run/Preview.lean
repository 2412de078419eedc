import Provision.Proofs.Run.Course

/-!
# A preview agrees with the run

Previews are all made on the host as it is, while a run applies each step on a host that the
steps before it have changed. Where no call is told to fail they agree all the same, since steps
are about different sites.

* `Effect.looks`, `only_preview`: a preview only looks at the host.
* `StepPreview.Foretells`: the result that a preview says a step will have.
* `foretells_fate`: **previewing and applying a step on one host agree.**
* `Foretold`: the log of a run says what the previews said, up to the first step that fails.
* `run_foretold`: **a preview changes nothing, and the run after it says what it said.**
-/

namespace Provision

open Script

/-- The requests that only look at the host. -/
def Effect.looks : Effect → Prop
  | host c => c.isReading = true
  | resolve _ => True
  | pause _ | cancelled | now | process | lock | unlock | prepare | save _ | load _ | latest => False

theorem Mock.Answers.of_isReading {may : Prop} {c : HostCall} {h h' : Mock.Host} {x : c.Reply}
    (ha : Mock.Answers may c h x h') (hc : c.isReading = true) : h' = h := by
  cases ha with
  | answered heq _ =>
    cases c with
    | find _ | unitState _ => exact (Prod.mk.inj heq).2.symm
    | _ => cases hc
  | refused e _ => rfl
  | lost _ _ _ => cases hc
  | lostUndo _ _ _ => cases hc

/-- What only looks at the host changes nothing, whatever fails. -/
theorem Stage.Lawful.ensures_looking {w : Setting Effect.interface Stage} (hw : Lawful w) {α : Type}
    {p : Effects α} (hp : p.Only Effect.looks) (s : Stage) :
    p.Ensures w (fun t => t = s) (fun _ _ => True) s := by
  refine hp.ensures (fun t e x t' he ht hx => ?_) rfl
  subst ht
  cases e with
  | host c =>
    obtain ⟨h, ha, rfl⟩ := hw t _ x t' hx
    rw [ha.of_isReading he]
  | resolve _ => exact hw t _ x t' hx
  | _ => exact he.elim

namespace Step

/-- A preview of a step looks at the site of its action, and at nothing else. -/
theorem only_preview (step : Step) :
    step.preview.Only fun e : Effect => e.serves step.action ∧ e.looks := by
  obtain ⟨id, dependsOn, action⟩ := step
  cases action with
  | mount spec =>
    refine Only.bind (Only.bind (only_call ⟨rfl, rfl⟩) fun reply => ?_) fun _ => trivial
    rcases reply with e | (_ | entry)
    · trivial
    · trivial
    · exact Only.bind (only_request ⟨trivial, trivial⟩) fun _ => trivial
  | service unit =>
    have hstate : (Units.state unit).Only fun e : Effect => e.serves (.service unit) ∧ e.looks := by
      refine Only.bind (only_call ⟨rfl, rfl⟩) fun reply => ?_
      rcases reply with e | _ <;> trivial
    exact Only.bind (Only.bind hstate fun _ => trivial) fun _ => trivial

theorem only_preview_serves (step : Step) : step.preview.Only (Effect.serves step.action) :=
  step.only_preview.mono fun _ he => he.1

theorem only_preview_looks (step : Step) : step.preview.Only Effect.looks :=
  step.only_preview.mono fun _ he => he.2

end Step

/-- The result that a preview says its step will have. -/
def StepPreview.Foretells (p : StepPreview) (r : StepResult) : Prop :=
  match p.outcome, p.action with
  | .skipped, _ => r = .skipped
  | .wouldMount, .mount _ => r = .applied (.mount true)
  | .alreadyMounted, .mount _ => r = .applied (.mount false)
  | .conflict observed, .mount spec =>
    r = .failed (HostError.conflict spec.target observed spec.describe).toFailure
  | .wouldIssue ops _, .service _ => r = .applied (.service ops)
  | .inDesiredState, .service _ => r = .applied (.service [])
  | .unknown error, _ => ∃ kind, r = .failed ⟨kind, error⟩
  | _, _ => False

/-- An entry of a log says of a step what a preview said. -/
def StepPreview.Confirmed (p : StepPreview) (e : LogEntry) : Prop :=
  e.step = p.step ∧ p.Foretells e.result

/-- A preview that is blocking foretells a failure. -/
theorem StepPreview.Foretells.failed {p : StepPreview} {r : StepResult} (h : p.Foretells r)
    (hblocking : p.isBlocking = true) : ∃ f, r = .failed f := by
  obtain ⟨id, action, outcome⟩ := p
  cases outcome with
  | conflict observed =>
    cases action with
    | mount spec => exact ⟨_, h⟩
    | service unit => exact h.elim
  | _ => cases hblocking

namespace Orchestrator

open Mock

variable {o : Orchestrator} {registry : Registry} {skip : List String} {links : Path → Option Path}
  {h₀ : Host} {steps : List Step} {step : Step}

/-- The preview of a step on a host. -/
def previewOf (links : Path → Option Path) (skip : List String) (h₀ : Host) (step : Step) : StepPreview :=
  if skip.contains step.id then step.skippedPreview else (step.preview.run (Host.reply links) h₀).1

/-- **Previewing and applying a step on one host agree.** -/
theorem foretells_fate (hh : h₀.Untroubled) (step : Step) :
    (previewOf links skip h₀ step).Foretells (fate links skip h₀ step) := by
  by_cases hskip : step.id ∈ skip
  · rw [previewOf, if_pos (by simpa using hskip), fate_skipped hskip]
    rfl
  rw [previewOf, if_neg (by simpa using hskip), fate, if_neg hskip]
  obtain ⟨id, dependsOn, action⟩ := step
  cases action with
  | mount spec =>
    have htrial : (StepAction.mount spec).trial links h₀ = _ := Mount.run_mount links spec hh
    have hpreview : ((Step.preview ⟨id, dependsOn, .mount spec⟩).run (Host.reply links) h₀).1 =
        ⟨id, .mount spec,
          .ofStatus (.ok (spec.status links (Mount.topmost spec.target h₀.table.entries)))⟩ := by
      unfold Step.preview
      dsimp only
      rw [run_bind, Mount.run_inspect]
      rfl
    rw [hpreview, htrial]
    cases spec.status links (Mount.topmost spec.target h₀.table.entries) <;> rfl
  | service unit =>
    have hpreview : ((Step.preview ⟨id, dependsOn, .service unit⟩).run (Host.reply links) h₀).1 =
        ⟨id, .service unit, .ofDelta unit.reloadManager ((Units.known unit
          (h₀.manager.state unit.unitName)).map (Units.delta unit))⟩ := by
      unfold Step.preview
      dsimp only
      rw [run_bind, Units.run_diff]
      rfl
    rw [hpreview, Units.known, Manager.isLoaded_state]
    dsimp only
    cases hu : h₀.manager.unit? unit.unitName with
    | none =>
      rw [(Units.trial_unknown links hh hu).1]
      exact ⟨_, rfl⟩
    | some u =>
      rw [(Units.trial_known links hh hu).1]
      simp only [Option.isSome_some, if_true, Except.map, PreviewOutcome.ofDelta]
      split
      · rename_i hnone
        rw [hnone.1]
        rfl
      · rfl

/-- Previews are made on the host as it is, and leave it so. -/
theorem ensures_previewAll (skip : List String) (steps : List Step) (s : Stage) :
    (previewAll skip steps).Ensures (Stage.undisturbed links) (fun _ => True)
      (fun previews t => previews = steps.map (previewOf links skip s.host) ∧ t = s) s := by
  induction steps with
  | nil => exact ⟨trivial, rfl, rfl⟩
  | cons step rest ih =>
    have hrest : ∀ preview, preview = previewOf links skip s.host step →
        (do return preview :: (← previewAll skip rest) : Effects (List StepPreview)).Ensures
          (Stage.undisturbed links) (fun _ => True) (fun previews t =>
            previews = (step :: rest).map (previewOf links skip s.host) ∧ t = s) s := by
      rintro preview rfl
      refine ensures_bind.2 (ih.imp ?_)
      rintro previews t - ⟨rfl, rfl⟩
      exact ⟨trivial, rfl, rfl⟩
    unfold previewAll
    by_cases hskip : skip.contains step.id = true
    · rw [if_pos hskip]
      exact hrest _ (by rw [previewOf, if_pos hskip])
    · rw [if_neg hskip]
      have hlawful : Stage.Lawful (Stage.undisturbed links) := Stage.lawful_undisturbed
      have hlooks := (Stage.ensures_of_run links step.only_preview_serves s).and
        (hlawful.ensures_looking step.only_preview_looks s)
      refine ensures_bind.2 (hlooks.mono (fun _ _ _ _ _ hx => hx) (fun _ _ => trivial) ?_)
      rintro preview t ⟨-, rfl⟩ ⟨⟨hpreview, -⟩, -⟩
      exact hrest preview (by rw [hpreview, previewOf, if_neg hskip])

/-- A preview of a plan that cannot be made asks for nothing. -/
theorem preview_of_checkedPlan_error {e : RunError} (hplan : checkedPlan registry skip = .error e) :
    (preview registry skip).run = .done (.error e) := by
  unfold preview
  rw [hplan]
  rfl

theorem ensures_preview {plan : RunPlan} (hplan : checkedPlan registry skip = .ok plan) (s : Stage) :
    (preview registry skip).run.Ensures (Stage.undisturbed links) (fun _ => True)
      (fun r _ => r = .ok (plan.steps.map (previewOf links skip s.host))) s := by
  have hrun : (preview registry skip).run = Except.ok <$> previewAll skip plan.steps := by
    unfold preview
    rw [hplan]
    rfl
  rw [hrun]
  exact ensures_map.2 ((ensures_previewAll skip plan.steps s).imp fun _ _ _ hr => congrArg Except.ok hr.1)

/-- A preview only looks at the host. -/
theorem only_preview (registry : Registry) (skip : List String) :
    (preview registry skip).run.Only Effect.looks := by
  have hall : ∀ steps : List Step, (previewAll skip steps).Only Effect.looks := by
    intro steps
    induction steps with
    | nil => trivial
    | cons step rest ih =>
      unfold previewAll
      split
      · exact Only.bind trivial fun _ => Only.bind ih fun _ => trivial
      · exact Only.bind step.only_preview_looks fun _ => Only.bind ih fun _ => trivial
  unfold preview
  cases checkedPlan registry skip with
  | error e => trivial
  | ok plan => exact Only.map (hall plan.steps)

/-- A preview names its step. -/
theorem step_previewOf (step : Step) : (previewOf links skip h₀ step).step = step.id := by
  unfold previewOf
  split
  · rfl
  · obtain ⟨id, dependsOn, action⟩ := step
    unfold Step.preview
    cases action <;> dsimp only <;> rw [run_bind] <;> rfl

/-- What a log tells of steps as they were foreseen is what their previews said. -/
theorem confirmed_of_told (hh : h₀.Untroubled) {entries : List LogEntry}
    (htold : entries.map LogEntry.told = steps.map (foreseen links skip h₀)) :
    List.Forall₂ StepPreview.Confirmed (steps.map (previewOf links skip h₀)) entries := by
  induction steps generalizing entries with
  | nil =>
    rw [List.map_nil, List.map_eq_nil_iff] at htold
    rw [htold]
    exact .nil
  | cons step rest ih =>
    obtain ⟨e, entries, rfl, hstep, hrest⟩ := List.map_eq_cons_iff.1 htold
    obtain ⟨hid, hresult⟩ := Prod.mk.inj hstep
    refine .cons ⟨hid.trans (step_previewOf step).symm, ?_⟩ (ih hrest)
    rw [show e.result = fate links skip h₀ step from hresult]
    exact foretells_fate hh step

/-- No step fails among those that can be applied. -/
theorem not_failed_of_told {entries : List LogEntry}
    (htold : entries.map LogEntry.told = steps.map (foreseen links skip h₀))
    (happlies : ∀ step ∈ taken skip steps, Applies links h₀ step) :
    ∀ e ∈ entries, ∀ f, e.result ≠ .failed f := by
  intro e he f hf
  have hmem : e.told ∈ steps.map (foreseen links skip h₀) := htold ▸ List.mem_map_of_mem he
  obtain ⟨step, hstep, htold⟩ := List.mem_map.1 hmem
  have hfate : fate links skip h₀ step = .failed f := (congrArg Prod.snd htold).trans hf
  by_cases hskip : step.id ∈ skip
  · rw [fate_skipped hskip] at hfate
    cases hfate
  · obtain ⟨change, hchange⟩ := happlies step (mem_taken.2 ⟨hstep, hskip⟩)
    rw [fate_applied hskip hchange] at hfate
    cases hfate

/-- The log of a run says of the steps what their previews said, up to the first one that
fails. If there is one, what was applied before it is rolled back. -/
inductive Foretold : List StepPreview → List LogEntry → RunStatus → Prop
  | completed {previews : List StepPreview} {entries : List LogEntry} :
      List.Forall₂ StepPreview.Confirmed previews entries → (∀ e ∈ entries, ∀ f, e.result ≠ .failed f) →
      Foretold previews entries .completed
  | failed {front later : List StepPreview} {p : StepPreview} {entries undone : List LogEntry}
      {last : LogEntry} {f : Failure} : List.Forall₂ StepPreview.Confirmed front entries →
      (∀ e ∈ entries, ∀ f, e.result ≠ .failed f) → (∀ e ∈ undone, e.result = .rolledBack) →
      p.Confirmed last → last.result = .failed f →
      Foretold (front ++ p :: later) (entries ++ undone ++ [last]) (.aborted .failure)

/-- **A run takes the course that was foretold.** -/
theorem Course.foretold (hh : h₀.Untroubled) {entries : List LogEntry} {status : RunStatus} {h : Host}
    (hcourse : Course links skip h₀ steps (entries.map LogEntry.told) status h) :
    Foretold (steps.map (previewOf links skip h₀)) entries status := by
  generalize htold : entries.map LogEntry.told = told at hcourse
  cases hcourse with
  | completed happlies _ =>
    exact .completed (confirmed_of_told hh htold) (not_failed_of_told htold happlies)
  | @failed done later step e h hsteps happlies hskip hfailed _ =>
    obtain ⟨told, last, rfl, htold, hlast⟩ := List.map_eq_append_iff.1 htold
    obtain ⟨front, undone, rfl, hfront, hundone⟩ := List.map_eq_append_iff.1 htold
    obtain ⟨e', rfl, he'⟩ := List.map_eq_singleton_iff.1 hlast
    obtain ⟨hid, hresult⟩ : e'.step = step.id ∧ e'.result = fate links skip h₀ step := Prod.mk.inj he'
    rw [hsteps, List.map_append, List.map_cons]
    refine .failed (confirmed_of_told hh hfront) (not_failed_of_told hfront happlies) ?_
      ⟨hid.trans (step_previewOf step).symm, hresult ▸ foretells_fate hh step⟩
      (hresult.trans (fate_failed hskip hfailed))
    intro e he
    have hmem : e.told ∈ (taken skip done).reverse.map undoneOf := hundone ▸ List.mem_map_of_mem he
    obtain ⟨step', -, htold'⟩ := List.mem_map.1 hmem
    exact (Prod.mk.inj htold').2.symm

/-- A preview that was confirmed was confirmed by an entry. -/
theorem exists_confirmed {previews : List StepPreview} {entries : List LogEntry} {p : StepPreview}
    (h : List.Forall₂ StepPreview.Confirmed previews entries) (hp : p ∈ previews) :
    ∃ e ∈ entries, p.Confirmed e := by
  induction h with
  | nil => cases hp
  | @cons p' e previews entries hfirst _ ih =>
    rcases List.mem_cons.1 hp with rfl | hp
    · exact ⟨e, List.mem_cons_self, hfirst⟩
    · obtain ⟨e', he', hconfirmed⟩ := ih hp
      exact ⟨e', List.mem_cons_of_mem _ he', hconfirmed⟩

/-- No preview of a run that was completed is blocking. -/
theorem Foretold.not_blocking {previews : List StepPreview} {entries : List LogEntry}
    (h : Foretold previews entries .completed) : ∀ p ∈ previews, p.isBlocking = false := by
  cases h with
  | completed hconfirmed hok =>
    intro p hp
    rw [← Bool.not_eq_true]
    intro hblocking
    obtain ⟨e, he, -, hforetells⟩ := exists_confirmed hconfirmed hp
    obtain ⟨f, hf⟩ := hforetells.failed hblocking
    exact hok e he f hf

/-- What a run comes to after a preview: if there is no plan both say why, and else the run
says of the steps what the preview said. -/
def Agrees (registry : Registry) (skip : List String) (s t : Stage) :
    Except RunError (List StepPreview) → Except RunError RunReport → Prop
  | .error e, result => result = .error e ∧ t = s
  | .ok previews, result => ∃ plan report log, checkedPlan registry skip = .ok plan ∧
    previews.map (·.step) = plan.ids ∧ result = .ok report ∧ t.saved.head? = some log ∧
    report = .ofLog log true ∧ Foretold previews log.entries report.status ∧
    (report.status = .completed → ∀ p ∈ previews, p.isBlocking = false)

/-- **A preview changes nothing, and the run right after it says of each step what the preview
said**, up to the first one that fails. The preview only looks at the host and leaves the state
directory alone, whatever fails; that both come to an end and agree is so where no call is told
to fail. -/
theorem run_foretold (hb : registry.Built) (hu : registry.UnitsDiffer) {s : Stage}
    (hh : s.host.Untroubled) :
    (preview registry skip).run.Only Effect.looks ∧
    (∀ q u, (preview registry skip).run.Reaches (Stage.setting fun _ _ => True) s q u → u = s) ∧
    (∃ r u, (preview registry skip).run.Reaches (Stage.undisturbed links) s (.done r) u) ∧
    ∀ r u, (preview registry skip).run.Reaches (Stage.undisturbed links) s (.done r) u →
      (∃ result t, (o.run registry skip).run.Reaches (Stage.undisturbed links) u (.done result) t) ∧
      ∀ result t, (o.run registry skip).run.Reaches (Stage.undisturbed links) u (.done result) t →
        Agrees registry skip s t r result := by
  have hlooks := only_preview registry skip
  refine ⟨hlooks, fun q u hr => ?_, exists_reaches_done Stage.serial_undisturbed _ _, fun r u hr => ?_⟩
  · exact ((Stage.lawful_setting.ensures_looking hlooks s).sound hr).now
  obtain rfl : s = u := (((Stage.lawful_undisturbed.ensures_looking hlooks s).sound hr).now).symm
  refine ⟨exists_reaches_done Stage.serial_undisturbed _ _, fun result t hrun => ?_⟩
  cases hplan : checkedPlan registry skip with
  | error e =>
    rw [preview_of_checkedPlan_error hplan] at hr
    rw [run_of_checkedPlan_error hplan] at hrun
    cases hr
    cases hrun
    exact ⟨rfl, rfl⟩
  | ok plan =>
    obtain ⟨-, rfl⟩ := (ensures_preview hplan s).sound hr
    obtain ⟨-, hran⟩ := (ensures_course hb hu hplan hh).sound hrun
    cases result with
    | error e => exact hran.elim
    | ok report =>
      obtain ⟨log, hsaved, rfl, hcourse⟩ := hran
      have hforetold := hcourse.foretold hh
      refine ⟨plan, _, log, hplan, ?_, rfl, hsaved, rfl, hforetold, fun hcompleted => ?_⟩
      · rw [List.map_map, RunPlan.ids]
        exact List.map_congr_left fun step _ => step_previewOf step
      · rw [show log.status = .completed from hcompleted] at hforetold
        exact hforetold.not_blocking

/-- There is no unit to start: the preview of the share says that it would be mounted, and the
one of the unit that its state is not known. The run mounts the share, fails, and unmounts it. -/
theorem run_foretold_unknown : served.UnitsDiffer ∧ Host.Untroubled {} ∧ ∃ previews report t,
    (preview served []).run.Reaches (Stage.undisturbed some) ⟨{}, []⟩ (.done (.ok previews)) ⟨{}, []⟩ ∧
    previews.map (·.outcome) = [.wouldMount, .unknown "no such unit: web.service"] ∧
    ((⟨default, .immediate 2⟩ : Orchestrator).run served []).run.Reaches (Stage.undisturbed some)
      ⟨{}, []⟩ (.done (.ok report)) t ∧
    report.status = .aborted .failure ∧ Agrees served [] ⟨{}, []⟩ t (.ok previews) (.ok report) := by
  have hu : served.UnitsDiffer := by simp [Registry.UnitsDiffer, served]
  have hh : Host.Untroubled {} := ⟨fun _ => rfl, fun _ _ => rfl⟩
  obtain ⟨previews, hwalk, houtcomes⟩ : ∃ previews,
      (preview served []).run.walk Stage.play (fun _ _ => true) 60 ⟨{}, []⟩ =
        some (.done (.ok previews), ⟨{}, []⟩) ∧
      previews.map (·.outcome) = [.wouldMount, .unknown "no such unit: web.service"] := ⟨_, rfl, rfl⟩
  obtain ⟨report, t, hwalk', hstatus⟩ : ∃ report t,
      ((⟨default, .immediate 2⟩ : Orchestrator).run served []).run.walk Stage.play (fun _ _ => true) 60
        ⟨{}, []⟩ = some (.done (.ok report), t) ∧ report.status = .aborted .failure := ⟨_, _, rfl, rfl⟩
  have hpreview := Reaches.of_walk (fun s r _ => Stage.undisturbed_play s r) hwalk
  have hrun := Reaches.of_walk (fun s r _ => Stage.undisturbed_play s r) hwalk'
  obtain ⟨-, -, -, hagrees⟩ := run_foretold built_served hu (s := ⟨{}, []⟩) hh
  exact ⟨hu, hh, previews, report, t, hpreview, houtcomes, hrun, hstatus,
    (hagrees _ _ hpreview).2 _ _ hrun⟩

end Orchestrator

end Provision
