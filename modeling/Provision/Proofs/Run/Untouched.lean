import Provision.Proofs.Run.Reversal
import Provision.Proofs.Run.Spared

/-!
# What a run has not changed, rolling it back does not change

* `HasLeft`: a run that was stopped has not changed a facet of the host.
* `rollback_spares`: **what a run had not changed when it was stopped, rolling it back leaves as it
  is**, unless the step in flight asks for just what is there. What was mounted before the run at a
  target is never changed by it.
* `rollback_takes_found`: what the step in flight asks for is taken to be its work, also where it was
  there before the run.
-/

namespace Provision

open Script Mount Orchestrator

namespace Site

theorem same_trans {site site' site'' : Site} (h : site.same site' = true) (h' : site'.same site'' = true) :
    site.same site'' = true := by
  cases site <;> cases site' <;> cases site'' <;>
    simp only [same, decide_eq_true_eq, Bool.false_eq_true] at h h' ⊢
  · exact Path.same_trans h h'
  · exact h.trans h'

end Site

namespace Stage

/-- Every call may fail, but no request changes a facet of the host. -/
def leaving (facet : Facet) : Setting Effect.interface Stage := fun s e x t =>
  setting (fun s c => s.anyFailure c = true) s e x t ∧ facet.of t.host = facet.of s.host

/-- A stage replies without changing a facet of the host. -/
def leaves (facet : Facet) (e : Effect) (s : Stage) : Bool :=
  admits anyFailure e s && facet.of (play e s).2.host = facet.of s.host

theorem leaving_play {facet : Facet} (s : Stage) (e : Effect) (h : leaves facet e s = true) :
    leaving facet s e (play e s).1 (play e s).2 := by
  obtain ⟨hadmits, hsame⟩ := Bool.and_eq_true_iff.1 h
  exact ⟨setting_play s e hadmits, by simpa using hsame⟩

theorem lawful_leaving {facet : Facet} : Lawful (leaving facet) := fun s e x t hx =>
  lawful_setting s e x t hx.1

theorem succeeds_anyFailure (target : Path) :
    Succeeds (setting fun s c => s.anyFailure c = true) (.find target) :=
  succeeds_setting fun _ => Bool.false_ne_true

end Stage

namespace Orchestrator

variable {o o' : Orchestrator} {w : Setting Effect.interface Stage} {registry : Registry}
  {skip : List String} {facet : Facet} {host : Mock.Host} {log : RunLog} {s t u : Stage}

/-- **A run that was stopped has not changed a facet of the host**: none of its requests did, or the
facet is as it was before the run. Where two steps are about one unit, only the former will do. -/
def HasLeft (o : Orchestrator) (registry : Registry) (skip : List String) (host : Mock.Host)
    (facet : Facet) (p : Effects (Except RunError RunReport)) (t : Stage) : Prop :=
  (o.run registry skip).run.Reaches (Stage.leaving facet) ⟨host, []⟩ p t ∨
    (facet.of t.host = facet.of host ∧ (registry.UnitsDiffer ∨ ∃ target, facet = .mounts target))

/-- One step of a plan at most is about a facet. -/
theorem once_of_differ (hb : registry.Built)
    (hdiffer : registry.UnitsDiffer ∨ ∃ target, facet = .mounts target) {plan : RunPlan}
    (hplan : registry.plan = .ok plan) : Once w facet plan.steps := by
  have hsteps : registry.steps.Pairwise fun a b => a.action.site.same facet.site = true →
      b.action.site.same facet.site = false := by
    obtain hunits | ⟨target, rfl⟩ := hdiffer
    · refine (hb.apart hunits).imp fun {a b} hapart ha => ?_
      by_contra hb'
      have hsame := Site.same_trans ha (Site.same_symm (by simpa using hb'))
      rw [show a.action.site.same b.action.site = false from hapart] at hsame
      cases hsame
    · refine hb.targets_differ.imp fun {a b} hab ha => ?_
      obtain ⟨_, _, spec | service⟩ := a
      · obtain ⟨_, _, spec' | service'⟩ := b
        · by_contra hb'
          have htarget : spec'.target.same target = true := Bool.of_not_eq_false hb'
          have hsame := Path.same_trans ha (Path.same_symm htarget)
          rw [hab _ _ rfl rfl] at hsame
          cases hsame
        · rfl
      · cases ha
  refine .inr (((Registry.plan_perm hplan).pairwise_iff fun {a b} hab hb' => ?_).2 hsteps)
  by_contra ha
  rw [hab (by simpa using ha)] at hb'
  cases hb'

/-- Undoing changes that spare a facet leaves it as it is. -/
theorem undoes_spared (t : Stage) : o.Undoes fun made h =>
    facet.of h = facet.of t.host ∧ ∀ m ∈ made, facet.SparedBy t.host m := by
  rintro front m s ⟨hsame, hspared⟩ hfits
  have hm : facet.SparedBy s.host m := (hspared m (by simp)).congr hsame
  have hundo := (ensures_undo_spared (o := o) Stage.lawful_sound (fun _ => Stage.succeeds_sound) hm hfits).and
    (Ledger.ensures_undo_clean (o := o) (s := s) (fun _ _ => Stage.succeeds_sound) hfits)
  refine hundo.mono (fun _ _ _ _ _ hx => hx) (fun _ _ => trivial) ?_
  rintro r t' - ⟨⟨hback, -⟩, hr⟩
  exact ⟨hr, (hback hr).trans hsame, fun m' hm' => hspared m' (List.mem_append_left _ hm')⟩

/-- What a log says is left over spares a facet that is as it was, unless the step in flight asks for
it. -/
theorem spared_of_leftover (hspared : SparedIn facet host log) (hsame : facet.of t.host = facet.of host)
    (hasked : ∀ f, log.inFlight = some f → ¬facet.AskedBy t.host f.action) :
    ∀ m ∈ leftover log, facet.SparedBy t.host m := by
  intro m hm
  rcases mem_leftover.1 hm with hheld | ⟨f, hf, rfl⟩
  · rw [held_eq] at hheld
    exact (hspared m (List.mem_filter.1 hheld).1).2.congr hsame
  · exact Facet.spared_assumed (hasked f hf) _

/-- What is left over can be undone by its action. -/
theorem fits_of_leftover (hspared : SparedIn facet host log) : ∀ m ∈ leftover log, m.Fits := by
  intro m hm
  rcases mem_leftover.1 hm with hheld | ⟨f, -, rfl⟩
  · rw [held_eq] at hheld
    exact (hspared m (List.mem_filter.1 hheld).1).1
  · exact fits_assumedChange _ _

/-- **Rolling back the run that was logged last** succeeds, and what the changes that are left over
track is there once they were undone. -/
theorem rolled_back (hlog : t.saved.head? = some log) (hfits : ∀ m ∈ leftover log, m.Fits)
    {r : Except RunError RunReport}
    (hdone : (o.rollbackRun (some log.runId)).run.Reaches Stage.sound t (.done r) u) :
    ∃ report, r = .ok report ∧ report.rollbackClean = true ∧
      ∀ tracks : List Made → Mock.Host → Prop, o.Undoes tracks → tracks (leftover log) t.host →
        tracks [] u.host := by
  have hrolled : ∀ tracks : List Made → Mock.Host → Prop, o.Undoes tracks → tracks (leftover log) t.host →
      onResult (Recovered tracks) (fun _ _ => False) r u := fun tracks hundoes htracks =>
    ((ensures_rollbackRun hundoes hlog hfits htracks).sound hdone).2
  -- rolling back is clean whatever the changes track
  have hclean : o.Undoes fun _ _ => True := fun _ _ _ _ hfits =>
    (Ledger.ensures_undo_clean (fun _ _ => Stage.succeeds_sound) hfits).imp fun _ _ _ hr => ⟨hr, trivial⟩
  cases r with
  | error e => exact (hrolled _ hclean trivial).elim
  | ok report =>
    exact ⟨report, rfl, (hrolled _ hclean trivial).1, fun tracks hundoes htracks =>
      (hrolled tracks hundoes htracks).2⟩

/-- **What a run had not changed when it was stopped, rolling it back leaves as it is**, whatever
failed in the run and if no call fails any more, unless the step in flight asks for just what is
there. What was mounted at a target before the run is never changed by it. -/
theorem rollback_spares (hb : registry.Built) {p : Effects (Except RunError RunReport)}
    (hstop : (o.run registry skip).run.Reaches (Stage.setting fun s c => s.anyFailure c = true)
      ⟨host, []⟩ p t) (hlog : t.saved.head? = some log) {r : Except RunError RunReport}
    (hdone : (o'.rollbackRun (some log.runId)).run.Reaches Stage.sound t (.done r) u) :
    ∃ report, r = .ok report ∧ report.rollbackClean = true ∧
      (∀ target, stack target host.table.entries ≠ [] →
        stack target t.host.table.entries = stack target host.table.entries) ∧
      ∀ facet : Facet, o.HasLeft registry skip host facet p t →
        (∀ f, log.inFlight = some f → ¬facet.AskedBy t.host f.action) →
        facet.of u.host = facet.of t.host := by
  have htarget : ∀ target, SparedOnDisk (.mounts target) host t := fun target =>
    ((ensures_spared Stage.lawful_setting Stage.succeeds_anyFailure fun _ hplan =>
      once_of_differ hb (.inr ⟨target, rfl⟩) hplan).sound hstop).now
  have hfits := fits_of_leftover ((htarget ⟨"/"⟩).1 log hlog)
  obtain ⟨report, rfl, hrep, hrolled⟩ := rolled_back hlog hfits hdone
  refine ⟨report, rfl, hrep, fun target hlasts => Sum.inl.inj ((htarget target).2 hlasts),
    fun facet hleft hasked => ?_⟩
  -- what is recorded spares the facet, and the facet is as it was
  obtain ⟨hspared, hsame⟩ : SparedIn facet host log ∧ facet.of t.host = facet.of host := by
    obtain hnever | ⟨hsame, hdiffer⟩ := hleft
    · have honce : ∀ plan : RunPlan, registry.plan = .ok plan → Once (Stage.leaving facet) facet plan.steps :=
        fun _ _ => .inl fun _ _ _ _ hx => hx.2
      have hfind : ∀ target, Stage.Succeeds (Stage.leaving facet) (.find target) := fun target s x t hx =>
        Stage.succeeds_anyFailure target s x t hx.1
      have hall : (o.run registry skip).run.Ensures (Stage.leaving facet)
          (fun t => facet.of t.host = facet.of host) (fun _ _ => True) ⟨host, []⟩ :=
        (only_any _).ensures (fun s e x t _ hs hx => hx.2.trans hs) rfl
      exact ⟨((ensures_spared Stage.lawful_leaving hfind honce).sound hnever).now.1 log hlog,
        (hall.sound hnever).now⟩
    · exact ⟨((ensures_spared Stage.lawful_setting Stage.succeeds_anyFailure fun _ hplan =>
        once_of_differ hb hdiffer hplan).sound hstop).now.1 log hlog, hsame⟩
  exact (hrolled _ (undoes_spared t)
    ⟨rfl, fun m hm => spared_of_leftover hspared hsame hasked m hm⟩).1

/-- A host on which the share is mounted already, and the unit is enabled and runs. -/
def foundHost : Mock.Host :=
  { table := { entries := [⟨"tmpfs", ⟨"/srv"⟩, "tmpfs", []⟩] }
    manager := { units := [("web.service", { enabled := true, active := true })] } }

/-- The run is stopped when the unit is in flight. Rolling it back leaves the share mounted, which it
was before the run. -/
theorem rollback_spares_found : served.Built ∧ ∃ p t log report u,
    ((⟨default, .immediate 2⟩ : Orchestrator).run served []).run.Reaches
      (Stage.setting fun s c => s.anyFailure c = true) ⟨foundHost, []⟩ p t ∧
    t.saved.head? = some log ∧ log.inFlight.isSome ∧
    ((⟨default, .immediate 1⟩ : Orchestrator).rollbackRun (some log.runId)).run.Reaches Stage.sound t
      (.done (.ok report)) u ∧
    report.rollbackClean = true ∧
    stack ⟨"/srv"⟩ u.host.table.entries = stack ⟨"/srv"⟩ foundHost.table.entries := by
  refine ⟨built_served, ?_⟩
  obtain ⟨p, t, log, report, u, hwalk, hlog, hsome, hflight, hsame, hback⟩ : ∃ p t log report u,
      ((⟨default, .immediate 2⟩ : Orchestrator).run served []).run.walk Stage.play
        (Stage.admits Stage.anyFailure) 17 ⟨foundHost, []⟩ = some (p, t) ∧
      t.saved.head? = some log ∧ log.inFlight.isSome ∧
      (log.inFlight.map InFlight.action) =
        some (.service { name := "web", enabled := some true, active := some true }) ∧
      Facet.of (.mounts ⟨"/srv"⟩) t.host = Facet.of (.mounts ⟨"/srv"⟩) foundHost ∧
      ((⟨default, .immediate 1⟩ : Orchestrator).rollbackLoaded log).walk Stage.play
        (Stage.admits fun _ _ => false) 60 t = some (.done (.ok report), u) :=
    ⟨_, _, _, _, _, rfl, rfl, rfl, rfl, rfl, rfl⟩
  have hstop := Reaches.of_walk Stage.setting_play hwalk
  have hdone := reaches_rollbackRun hlog (Reaches.of_walk Stage.sound_play hback)
  -- the step in flight is about the unit
  have hasked : ∀ f, log.inFlight = some f → ¬Facet.AskedBy (.mounts ⟨"/srv"⟩) t.host f.action := by
    intro f hf
    rw [hf] at hflight
    rw [Option.some.inj hflight]
    exact id
  obtain ⟨report', hreport, hclean, -, hspared⟩ := rollback_spares built_served hstop hlog hdone
  obtain rfl : report = report' := Except.ok.inj hreport
  exact ⟨p, t, log, report, u, hstop, hlog, hsome, hdone, hclean,
    (Sum.inl.inj (hspared _ (.inr ⟨hsame, .inr ⟨_, rfl⟩⟩) hasked)).trans (Sum.inl.inj hsame)⟩

/-- Stopped when the share is in flight, the run has called nothing yet: rolling it back unmounts the
share, which was mounted before the run. Stopped when the unit is in flight, it has not changed the
unit: rolling it back disables it. -/
theorem rollback_takes_found : served.Built ∧
    (∃ p t log report u,
      ((⟨default, .immediate 2⟩ : Orchestrator).run served []).run.Reaches
        (Stage.leaving (.mounts ⟨"/srv"⟩)) ⟨foundHost, []⟩ p t ∧ t.saved.head? = some log ∧
      ((⟨default, .immediate 1⟩ : Orchestrator).rollbackRun (some log.runId)).run.Reaches Stage.sound t
        (.done (.ok report)) u ∧
      stack ⟨"/srv"⟩ foundHost.table.entries ≠ [] ∧
      stack ⟨"/srv"⟩ t.host.table.entries = stack ⟨"/srv"⟩ foundHost.table.entries ∧
      stack ⟨"/srv"⟩ u.host.table.entries = []) ∧
    ∃ p t log report u,
      ((⟨default, .immediate 2⟩ : Orchestrator).run served []).run.Reaches
        (Stage.leaving (.switch "web.service" .enabled)) ⟨foundHost, []⟩ p t ∧ t.saved.head? = some log ∧
      ((⟨default, .immediate 1⟩ : Orchestrator).rollbackRun (some log.runId)).run.Reaches Stage.sound t
        (.done (.ok report)) u ∧
      t.host.manager.shows "web.service" .enabled = true ∧
      u.host.manager.shows "web.service" .enabled = false := by
  refine ⟨built_served, ?_, ?_⟩
  · obtain ⟨p, t, log, report, u, hwalk, hlog, hmounted, hsame, hunmounted, hback⟩ : ∃ p t log report u,
        ((⟨default, .immediate 2⟩ : Orchestrator).run served []).run.walk Stage.play
          (Stage.leaves (.mounts ⟨"/srv"⟩)) 10 ⟨foundHost, []⟩ = some (p, t) ∧
        t.saved.head? = some log ∧ stack ⟨"/srv"⟩ foundHost.table.entries ≠ [] ∧
        stack ⟨"/srv"⟩ t.host.table.entries = stack ⟨"/srv"⟩ foundHost.table.entries ∧
        stack ⟨"/srv"⟩ u.host.table.entries = [] ∧
        ((⟨default, .immediate 1⟩ : Orchestrator).rollbackLoaded log).walk Stage.play
          (Stage.admits fun _ _ => false) 60 t = some (.done (.ok report), u) := by
      refine ⟨_, _, _, _, _, rfl, rfl, by decide, rfl, ?_, rfl⟩
      rfl
    exact ⟨p, t, log, report, u, Reaches.of_walk Stage.leaving_play hwalk, hlog,
      reaches_rollbackRun hlog (Reaches.of_walk Stage.sound_play hback), hmounted, hsame, hunmounted⟩
  · obtain ⟨p, t, log, report, u, hwalk, hlog, hon, hback, hoff⟩ : ∃ p t log report u,
        ((⟨default, .immediate 2⟩ : Orchestrator).run served []).run.walk Stage.play
          (Stage.leaves (.switch "web.service" .enabled)) 17 ⟨foundHost, []⟩ = some (p, t) ∧
        t.saved.head? = some log ∧ t.host.manager.shows "web.service" .enabled = true ∧
        ((⟨default, .immediate 1⟩ : Orchestrator).rollbackLoaded log).walk Stage.play
          (Stage.admits fun _ _ => false) 60 t = some (.done (.ok report), u) ∧
        u.host.manager.shows "web.service" .enabled = false :=
      ⟨_, _, _, _, _, rfl, rfl, by decide, rfl, by decide⟩
    exact ⟨p, t, log, report, u, Reaches.of_walk Stage.leaving_play hwalk, hlog,
      reaches_rollbackRun hlog (Reaches.of_walk Stage.sound_play hback), hon, hoff⟩

end Orchestrator

end Provision
