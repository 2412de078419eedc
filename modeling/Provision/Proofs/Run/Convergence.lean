import Provision.Proofs.Run.Restored
import Provision.Proofs.Run.Sites

/-!
# A run that was completed brings the host to what was asked for

Whatever fails on the way, replies that are lost and compensating calls included.

* `Stage.linked`: the setting in which every call may fail and links stay as they are.
* `StepAction.Met`: the host is as an action asks for.
* `ensures_apply_met`: **an action that is applied is met**; only its last attempt matters.
* `run_converges`: **after a run that was completed every step is met that was not skipped.**
-/

namespace Provision

open Script

/-- What a path leads to is answered as some links have it. -/
def Effect.Finds (links : Path → Option Path) : (e : Effect) → e.Reply → Prop
  | .resolve _, x => x = links
  | .host _, _ | .pause _, _ | .cancelled, _ | .now, _ | .process, _ | .lock, _ | .unlock, _
  | .prepare, _ | .save _, _ | .load _, _ | .latest, _ => True

/-- The setting in which every call may fail, and links stay as they are. -/
def Stage.linked (links : Path → Option Path) : Setting Effect.interface Stage :=
  fun s e x s' => setting (fun _ _ => True) s e x s' ∧ e.Finds links x

/-- Links stay as they are in this setting. -/
def Stage.Finds (links : Path → Option Path) (w : Setting Effect.interface Stage) : Prop :=
  ∀ s paths x s', w s (.resolve paths) x s' → x = links

theorem Stage.lawful_linked {links : Path → Option Path} : Lawful (linked links) :=
  fun _ _ _ _ hx => hx.1

theorem Stage.finds_linked {links : Path → Option Path} : Finds links (linked links) :=
  fun _ _ _ _ hx => hx.2

theorem Stage.linked_play (s : Stage) (e : Effect) : linked some s e (play e s).1 (play e s).2 := by
  have hadmits : admits (fun _ _ => true) e s = true := by cases e <;> rfl
  refine ⟨lawful_setting _ _ _ _ (setting_play s e hadmits), ?_⟩
  cases e <;> trivial

/-- The host is as an action asks for: its target holds what satisfies it, or its unit exists
and has every switch where it is wanted. -/
def StepAction.Met (links : Path → Option Path) (h : Mock.Host) : StepAction → Prop
  | mount spec => ∃ e, h.table.find spec.target = some e ∧ e.satisfies links spec = true
  | service unit => ∃ u, h.manager.unit? unit.unitName = some u ∧
    ∀ b v, unit.wanted b = some v → u.get b = v

/-- Whether an action is met shows at its own site. -/
theorem StepAction.Met.congr {links : Path → Option Path} {h h' : Mock.Host} {action : StepAction}
    (hmet : action.Met links h) (hsite : h'.holds action.site = h.holds action.site) :
    action.Met links h' := by
  cases action with
  | mount spec =>
    obtain ⟨e, hfind, hsat⟩ := hmet
    have hstack : Mount.stack spec.target h'.table.entries = Mount.stack spec.target h.table.entries :=
      Sum.inl.inj hsite
    exact ⟨e, (Mount.topmost_of_stack hstack).trans hfind, hsat⟩
  | service unit =>
    obtain ⟨u, hu, hwanted⟩ := hmet
    have hunit : h'.manager.unit? unit.unitName = h.manager.unit? unit.unitName := Sum.inr.inj hsite
    exact ⟨u, hunit.trans hu, hwanted⟩

section Apply

variable {links : Path → Option Path} {w : Setting Effect.interface Stage} {s : Stage}

namespace Mount

/-- What matches when it is looked at satisfies what was asked for. -/
theorem ensures_inspect_met (hw : Stage.Lawful w) (hl : Stage.Finds links w) (spec : MountSpec)
    (s : Stage) : (inspect spec).Ensures w (fun _ => True)
      (fun r t => r = .ok .matching → (StepAction.mount spec).Met links t.host) s := by
  refine ensures_bind.2 ((ensures_call s).2 ⟨trivial, fun x s' hx => ⟨trivial, ?_⟩⟩)
  obtain ⟨h, ha, rfl⟩ := hw s _ x s' hx
  -- an entry comes from the host itself
  have hfound : ∀ entry, x = .ok (some entry) → h.table.find spec.target = some entry := by
    intro entry hentry
    cases ha with
    | answered heq _ =>
      obtain ⟨hreply, rfl⟩ := Prod.mk.inj heq
      exact Except.ok.inj (hreply.trans hentry)
    | refused e _ => cases hentry
  obtain e | _ | entry := (x : Except HostError (Option MountEntry))
  · exact ⟨trivial, fun h => by cases h⟩
  · exact ⟨trivial, fun h => by cases h⟩
  · refine ensures_bind.2 ((ensures_resolutions _).2 ⟨trivial, fun resolve t ht => ⟨trivial, trivial, ?_⟩⟩)
    obtain rfl : resolve = links := hl _ _ _ _ ht
    obtain rfl : t = _ := hw.quiet _ _ _ _ rfl ht
    by_cases hsat : entry.satisfies resolve spec = true
    · exact fun _ => ⟨entry, hfound entry rfl, hsat⟩
    · rw [if_neg hsat]
      exact fun h => by cases h

/-- What is mounted, or was mounted before, satisfies what was asked for. -/
theorem ensures_mount_met (hw : Stage.Lawful w) (hl : Stage.Finds links w) (spec : MountSpec)
    (s : Stage) : (mount spec).Ensures w (fun _ => True)
      (fun r t => r.isOk = true → (StepAction.mount spec).Met links t.host) s := by
  have hfailed : ∀ (e : HostError) (t : Stage), (.error e : Except HostError Change).isOk = true →
      (StepAction.mount spec).Met links t.host := fun _ _ h => by cases h
  refine ensures_bind.2 ((ensures_inspect_met hw hl spec s).imp ?_)
  rintro (e | (_ | _ | observed)) t - hmet
  · exact ⟨trivial, hfailed e t⟩
  · refine ensures_bind.2 ((ensures_call t).2 ⟨trivial, fun x t' hx => ⟨trivial, ?_⟩⟩)
    cases (x : Except HostError Unit) with
    | error e => exact ⟨trivial, hfailed e t'⟩
    | ok _ =>
      -- what was mounted is looked at again
      refine ensures_bind.2 ((ensures_inspect_met hw hl spec t').imp fun status u _ hmet => ?_)
      have hdiscard : ∀ fault, (discard spec fault).Ensures w (fun _ => True)
          (fun r t => r.isOk = true → (StepAction.mount spec).Met links t.host) u := by
        refine fun fault => ((returns_discard spec fault).ensures u).imp fun r v _ hr hok => ?_
        rw [hr] at hok
        cases hok
      rcases status with e | (_ | _ | observed)
      · exact hdiscard _
      · exact hdiscard _
      · exact ⟨trivial, fun _ => hmet rfl⟩
      · exact hdiscard _
  · exact ⟨trivial, fun _ => hmet rfl⟩
  · exact ⟨trivial, hfailed _ t⟩

end Mount

namespace Units

variable {unit : ServiceUnit}

/-- The operations that are missing are those that are missing in the state the unit is in. -/
theorem ensures_diff_delta (hw : Stage.Lawful w) (unit : ServiceUnit) (s : Stage) :
    (diff unit).Ensures w (fun _ => True) (fun r t => ∀ ops, r = .ok ops →
      ∃ u, t.host.manager.unit? unit.unitName = some u ∧
        ops = delta unit (t.host.manager.state unit.unitName)) s := by
  refine ensures_bind.2 (ensures_bind.2 ((ensures_call s).2 ⟨trivial, fun x s' hx => ⟨trivial, ?_⟩⟩))
  obtain ⟨h, ha, rfl⟩ := hw s _ x s' hx
  have hstate : ∀ state, x = .ok state → h.manager.state unit.unitName = state := by
    intro state hstate
    cases ha with
    | answered heq _ =>
      obtain ⟨hreply, rfl⟩ := Prod.mk.inj heq
      exact Except.ok.inj (hreply.trans hstate)
    | refused e _ => cases hstate
  cases (x : Except HostError UnitState) with
  | error e => exact ⟨trivial, trivial, fun ops h => by cases h⟩
  | ok state =>
    obtain rfl := hstate state rfl
    refine ⟨trivial, trivial, fun ops hops => ?_⟩
    rw [known, Mock.Manager.isLoaded_state] at hops
    cases hu : h.manager.unit? unit.unitName with
    | none =>
      rw [hu] at hops
      cases hops
    | some u =>
      rw [hu] at hops
      exact ⟨u, rfl, (Except.ok.inj hops).symm⟩

/-- Operations that all succeed set the switches of the unit one after the other. -/
theorem ensures_issueAll_puts (hw : Stage.Lawful w) (ops : List UnitOp) :
    ∀ uncertain issued s u, s.host.manager.unit? unit.unitName = some u →
      (issueAll unit uncertain issued ops).Ensures w (fun _ => True) (fun r t => r.1.isOk = true →
        ∃ u', t.host.manager.unit? unit.unitName = some u' ∧
          ∀ b, u'.get b = Switch.putAll b ops (u.get b)) s := by
  induction ops with
  | nil => exact fun _ _ s u hu => ⟨trivial, fun _ => ⟨u, hu, fun _ => rfl⟩⟩
  | cons op rest ih =>
    intro uncertain issued s u hu
    refine ensures_bind.2 ((ensures_call s).2 ⟨trivial, fun x s' hx => ⟨trivial, ?_⟩⟩)
    cases (x : Except HostError Unit) with
    | error e =>
      -- one that fails makes the whole fail
      refine ensures_bind.2 (((returns_any _).ensures _).imp ?_)
      exact fun _ _ _ _ => ⟨trivial, fun h => by cases h⟩
    | ok _ =>
      obtain ⟨h, ha, rfl⟩ := hw s _ _ s' hx
      obtain ⟨u₀, u', hu₀, heffect, hu'⟩ : ∃ u₀ u', s.host.manager.unit? unit.unitName = some u₀ ∧
          Mock.Manager.effect unit.unitName u₀ op = .ok u' ∧ h.manager.unit? unit.unitName = some u' := by
        cases ha with
        | answered heq _ =>
          obtain ⟨hreply, rfl⟩ := Prod.mk.inj heq
          exact Mock.Manager.unit?_issue_ok (Prod.ext hreply rfl)
      obtain rfl : u = u₀ := Option.some.inj (hu.symm.trans hu₀)
      refine (ih uncertain (issued ++ [op]) _ u' hu').imp fun r t _ hr hok => ?_
      obtain ⟨v, hv, hput⟩ := hr hok
      refine ⟨v, hv, fun b => ?_⟩
      rw [hput b, Mock.Manager.get_effect heffect b]
      rfl

/-- A unit that was brought to its desired state has every switch where it is wanted. -/
theorem ensures_reconcile_met (hw : Stage.Lawful w) (unit : ServiceUnit) (uncertain : List UnitOp)
    (s : Stage) : (reconcile unit uncertain).Ensures w (fun _ => True)
      (fun r t => r.1.isOk = true → (StepAction.service unit).Met links t.host) s := by
  refine ensures_bind.2 (((returns_any _).ensures _).imp ?_)
  rintro (e | _) t - -
  · exact ⟨trivial, fun h => by cases h⟩
  · refine ensures_bind.2 ((ensures_diff_delta hw unit t).imp ?_)
    rintro (e | ops) t' - hops
    · exact ⟨trivial, fun h => by cases h⟩
    · obtain ⟨u, hu, rfl⟩ := hops ops rfl
      refine ensures_bind.2 ((ensures_issueAll_puts hw _ uncertain [] t' u hu).imp ?_)
      rintro ⟨e | _, U⟩ t'' - hr
      · exact ⟨trivial, fun h => by cases h⟩
      · obtain ⟨u', hu', hput⟩ := hr rfl
        refine ⟨trivial, fun _ => ⟨u', hu', fun b v hw => ?_⟩⟩
        rw [hput b, ← Mock.Manager.reads_state hu]
        exact Units.putAll_delta Mock.Manager.isFixed_state hw

end Units

/-- **An action that is applied is met**, whatever failed in the attempts before the last one. -/
theorem StepAction.ensures_apply_met (hw : Stage.Lawful w) (hl : Stage.Finds links w) (policy : Retry)
    (action : StepAction) (s : Stage) : (action.apply policy).Ensures w (fun _ => True)
      (fun r t => r.isOk = true → action.Met links t.host) s := by
  have hpause : ∀ s d x s', w s (.pause d) x s' → s' = s := fun s d x s' hx => hw.quiet s _ x s' rfl hx
  cases action with
  | mount spec =>
    refine policy.ensures_repeating (fun _ => True) hpause (fun t _ => ?_) trivial
    exact (Mount.ensures_mount_met hw hl spec t).imp fun r t _ hr => ⟨hr, fun _ _ _ => trivial⟩
  | service unit =>
    have hattempts : (policy.attempts (Units.reconcile unit) []).Ensures w (fun _ => True)
        (fun r t => r.1.isOk = true → (StepAction.service unit).Met links t.host) s := by
      refine policy.ensures_attempts (fun _ _ => True) _ hpause (fun U t _ => ?_) trivial
      exact (Units.ensures_reconcile_met hw unit U t).imp fun r t _ hr => ⟨hr, fun _ _ _ => trivial⟩
    refine ensures_bind.2 (hattempts.imp ?_)
    rintro ⟨e | (mounted | ops), U⟩ t - hr
    · refine ensures_bind.2 (((returns_any _).ensures _).imp ?_)
      exact fun _ _ _ _ => ⟨trivial, fun h => by cases h⟩
    · exact ⟨trivial, fun _ => hr rfl⟩
    · exact ⟨trivial, fun _ => hr rfl⟩

end Apply

namespace Orchestrator

variable {o : Orchestrator} {registry : Registry} {skip : List String} {links : Path → Option Path}
  {w : Setting Effect.interface Stage} {steps : List Step} {report : RunReport} {s t : Stage}

/-- Every step among some that is not to be skipped is met. -/
def AllMet (links : Path → Option Path) (skip : List String) (steps : List Step) (h : Mock.Host) : Prop :=
  ∀ step ∈ steps, step.id ∉ skip → step.action.Met links h

/-- Some of the steps have been taken, and are met. -/
def MetSoFar (links : Path → Option Path) (skip : List String) (steps rest : List Step) (s : Stage) :
    Prop := ∃ done, steps = done ++ rest ∧ AllMet links skip done s.host

/-- **Taking a step keeps the steps before it met**, and meets its own action if it is applied. -/
theorem ensures_apply_allMet (hw : Stage.Lawful w) (hl : Stage.Finds links w) (policy : Retry)
    {done : List Step} {step : Step} (hapart : ∀ step' ∈ done, Registry.Apart step' step)
    (hmet : AllMet links skip done s.host) :
    (step.action.apply policy).Ensures w (fun _ => True) (fun r t => AllMet links skip done t.host ∧
      (r.isOk = true → AllMet links skip (done ++ [step]) t.host)) s := by
  have happly := (StepAction.ensures_apply_met hw hl policy step.action s).and
    (hw.ensures_elsewhere (step.action.only_apply policy) s)
  refine happly.mono (fun _ _ _ _ _ hx => hx) (fun _ _ => trivial) fun r t hkeeps hr => ?_
  have hdone : AllMet links skip done t.host := fun step' hstep' hskip =>
    (hmet step' hstep' hskip).congr (hkeeps.2.2 _ (hapart step' hstep'))
  refine ⟨hdone, fun hok step' hstep' hskip => ?_⟩
  rcases List.mem_append.1 hstep' with hstep' | hstep'
  · exact hdone step' hstep' hskip
  · obtain rfl := List.mem_singleton.1 hstep'
    exact hr.1 hok

/-- **The forward half meets one step after the other.** -/
theorem ensures_forward_met (hw : Stage.Lawful w) (hl : Stage.Finds links w)
    (hapart : steps.Pairwise Registry.Apart) (log : RunLog) (s : Stage) :
    (o.forward skip log [] steps).run.Ensures w (fun _ => True)
      (onResult (fun p t => p.halt = .complete → AllMet links skip steps t.host) fun _ _ => True) s := by
  let inv (rest : List Step) (_ : RunLog) (_ : List Made) (t : Stage) : Prop :=
    MetSoFar links skip steps rest t
  have hstart : inv steps log [] s := ⟨[], rfl, by simp [AllMet]⟩
  refine ensures_forward hw.quiet (fun _ _ _ _ _ => trivial) ?_ ?_ ?_ ?_ steps log [] s hstart
  · rintro log made t ⟨done, hdone, hmet⟩ -
    rw [hdone, List.append_nil]
    exact hmet
  · rintro step rest log made t - h
    cases h
  · rintro step rest log made t hskip ⟨done, hdone, hmet⟩ now
    refine hw.saving trivial ⟨trivial, done ++ [step], by simp [hdone], fun step' hstep' hskip' => ?_⟩
    rcases List.mem_append.1 hstep' with hstep' | hstep'
    · exact hmet step' hstep' hskip'
    · obtain rfl := List.mem_singleton.1 hstep'
      exact absurd hskip hskip'
  · rintro step rest log made t hskip ⟨done, hdone, hmet⟩
    have hstep : ∀ step' ∈ done, Registry.Apart step' step := by
      rw [hdone] at hapart
      exact fun step' hstep' => (List.pairwise_append.1 hapart).2.2 step' hstep' step (by simp)
    refine ensures_applyStep hw.quiet trivial fun since => hw.saving trivial ⟨trivial, ?_⟩
    have hmarked : AllMet links skip done (t.save (marking log step since)).host := hmet
    refine (ensures_apply_allMet hw hl o.retry hstep hmarked).imp ?_
    intro r u _ hr now
    refine hw.saving trivial ⟨trivial, ?_⟩
    cases r with
    | ok change => exact ⟨done ++ [step], by simp [hdone], hr.2 rfl⟩
    | error e =>
      intro h
      cases h

/-- A run that stopped early does not end completed, whatever undoing comes to. -/
theorem ensures_finishing_met (hw : Stage.Lawful w) {p : Progress}
    (h : p.halt = .complete → AllMet links skip steps t.host) :
    Finishing w (fun _ => True) (fun _ _ => True) o
      (fun report t => report.status = .completed → AllMet links skip steps t.host) p t := by
  obtain ⟨log, made, halt⟩ := p
  cases halt with
  | complete => exact ensures_pureE.2 ⟨trivial, fun now => hw.saving trivial ⟨trivial, fun _ => h rfl⟩⟩
  | cancelled =>
    refine ((returns_any _).ensures _).imp ?_
    rintro (e | ⟨log', clean⟩) u - -
    · trivial
    · exact fun now => hw.saving trivial ⟨trivial, fun hstatus => by cases hstatus⟩
  | failed step f =>
    refine ((returns_any _).ensures _).imp ?_
    rintro (e | ⟨log', clean⟩) u - -
    · trivial
    · refine fun now => hw.saving trivial ⟨trivial, fun now' => hw.saving trivial ⟨trivial, ?_⟩⟩
      intro hstatus
      cases hstatus

/-- A run that was completed has met every step that was not skipped. -/
theorem ensures_run_met (hw : Stage.Lawful w) (hl : Stage.Finds links w) (hb : registry.Built)
    (hu : registry.UnitsDiffer) (s : Stage) : (o.run registry skip).run.Ensures w (fun _ => True)
      (onResult (fun report t => report.status = .completed → AllMet links skip registry.steps t.host)
        fun _ _ => True) s := by
  refine ensures_run hw.quiet trivial (fun _ => trivial) fun plan hplan => ?_
  have hplan := plan_of_checkedPlan hplan
  refine ensures_carryOut hw.quiet trivial (fun _ => trivial) fun id started => ?_
  refine hw.saving trivial ⟨trivial, hw.saving trivial ⟨trivial, ?_⟩⟩
  refine (ensures_forward_met hw hl (hb.plan_apart hu hplan) _ _).imp ?_
  rintro (e | p) t - hp
  · exact hp
  · exact ensures_finishing_met hw fun h step hstep =>
      hp h step ((Registry.plan_perm hplan).mem_iff.2 hstep)

/-- **A run that was completed has brought the host to what was asked for**, whatever failed on
the way: the target of every mount step that was not skipped holds what satisfies it, and the
unit of every service step that was not skipped has each switch where it is wanted. -/
theorem run_converges (hb : registry.Built) (hu : registry.UnitsDiffer)
    (hrun : (o.run registry skip).run.Reaches (Stage.linked links) s (.done (.ok report)) t)
    (hstatus : report.status = .completed) :
    ∀ step ∈ registry.steps, step.id ∉ skip → step.action.Met links t.host :=
  ((ensures_run_met Stage.lawful_linked Stage.finds_linked hb hu s).sound hrun).2 hstatus

/-- The reply to starting the unit is lost, and enabling it cannot be taken back. The second
attempt finds nothing left to do. -/
theorem run_converges_lost : served.UnitsDiffer ∧ ∃ report t,
    ((⟨default, .immediate 2⟩ : Orchestrator).run served []).run.Reaches (Stage.linked some)
      ⟨webHost [⟨.start, "web.service", .lostReply, 1⟩, ⟨.disable, "web.service", .rejected, 1⟩], []⟩
      (.done (.ok report)) t ∧
    report.status = .completed ∧ ∀ step ∈ served.steps, step.id ∉ [] → step.action.Met some t.host := by
  have hu : served.UnitsDiffer := by simp [Registry.UnitsDiffer, served]
  obtain ⟨report, t, hwalk, hstatus⟩ : ∃ report t,
      ((⟨default, .immediate 2⟩ : Orchestrator).run served []).run.walk Stage.play (fun _ _ => true) 60
        ⟨webHost [⟨.start, "web.service", .lostReply, 1⟩, ⟨.disable, "web.service", .rejected, 1⟩], []⟩ =
          some (.done (.ok report), t) ∧
      report.status = .completed := ⟨_, _, rfl, rfl⟩
  have hrun := Reaches.of_walk (fun s r _ => Stage.linked_play s r) hwalk
  exact ⟨hu, report, t, hrun, hstatus, run_converges built_served hu hrun hstatus⟩

end Orchestrator

end Provision
