import Provision.Proofs.Mock.Untroubled
import Provision.Proofs.Run.Convergence

/-!
# Actions on a host on which no call is told to fail

What applying an action comes to there can be told from what the host holds at its site, and
undoing it brings that back.

* `MountSpec.status`: what the table says about a request.
* `StepAction.attempt`, `trial`: an action without retries, and what it comes to.
* `run_mount`, `run_reconcile_known`, `run_reconcile_unknown`: what applying an action comes to.
* `run_apply`: no retry is made.
* `holds_of_failed`: **an action that fails leaves its site as it was.**
* `run_rollback`: **undoing an action that was applied succeeds, and brings back what its site
  held.**
-/

namespace Provision

open Script

/-- What the table says about a request, from the topmost entry at its target. -/
def MountSpec.status (links : Path → Option Path) (spec : MountSpec) : Option MountEntry → MountStatus
  | none => .absent
  | some entry => if entry.satisfies links spec then .matching else .conflicting entry

/-- An action without retries. -/
def StepAction.attempt : StepAction → Effects (Except HostError Change)
  | mount spec => Mount.mount spec
  | service unit => do
    let (result, uncertain) ← Units.reconcile unit []
    Units.settle unit result uncertain

theorem StepAction.only_attempt (action : StepAction) : action.attempt.Only (Effect.serves action) := by
  cases action with
  | mount spec => exact Mount.only_mount
  | service unit => exact Only.bind (Units.only_reconcile []) fun r => Units.only_settle r.1 r.2

/-- What an action comes to on a host, without retries. -/
def StepAction.trial (links : Path → Option Path) (action : StepAction) (h : Mock.Host) :
    Except HostError Change × Mock.Host := action.attempt.run (Mock.Host.reply links) h

section Trial

open Mock

variable {links : Path → Option Path} {h h' : Host}

namespace Mount

variable {spec : MountSpec}

theorem run_inspect (links : Path → Option Path) (spec : MountSpec) (h : Host) :
    (inspect spec).run (Host.reply links) h =
      (.ok (spec.status links (topmost spec.target h.table.entries)), h) := by
  have hfind : (Effect.call (.find spec.target)).run (Host.reply links) h =
      (.ok (topmost spec.target h.table.entries), h) := rfl
  unfold inspect
  rw [run_bind, hfind]
  cases topmost spec.target h.table.entries <;> rfl

/-- **What mounting comes to**: where nothing is mounted the file system is mounted, and what is
mounted already is left alone. -/
theorem run_mount (links : Path → Option Path) (spec : MountSpec) (hh : h.Untroubled) :
    (mount spec).run (Host.reply links) h =
      match spec.status links (topmost spec.target h.table.entries) with
      | .absent => (.ok (.mount true), { h with table := (h.table.mount spec).2 })
      | .matching => (.ok (.mount false), h)
      | .conflicting observed =>
        (.error (.conflict spec.target observed.describe spec.describe), h) := by
  obtain ⟨hreply, hentries⟩ := Table.mount_of_not_failing (hh.table spec.target)
  have hcall : (Effect.call (.mount spec)).run (Host.reply links) h =
      (.ok (), { h with table := (h.table.mount spec).2 }) := Prod.ext hreply rfl
  -- the new entry is on top, and is what was asked for
  have hnew : spec.status links (topmost spec.target (h.table.mount spec).2.entries) = .matching := by
    rw [hentries, topmost_mounted]
    exact if_pos (MountEntry.satisfies_ofSpec links spec)
  unfold mount
  rw [run_bind, run_inspect]
  cases spec.status links (topmost spec.target h.table.entries) with
  | absent =>
    dsimp only
    rw [run_bind, hcall]
    dsimp only
    rw [run_bind, run_inspect]
    dsimp only
    rw [hnew]
    rfl
  | matching => rfl
  | conflicting observed => rfl

/-- What was mounted is on top afterwards, over nothing. -/
theorem stack_of_mounted (hh : h.Untroubled)
    (hstatus : spec.status links (topmost spec.target h.table.entries) = .absent) :
    stack spec.target h.table.entries = [] ∧
      stack spec.target (h.table.mount spec).2.entries = [.ofSpec spec] := by
  have hnil : stack spec.target h.table.entries = [] := by
    rw [topmost_eq] at hstatus
    cases hlast : (stack spec.target h.table.entries).getLast? with
    | none => exact List.getLast?_eq_none_iff.1 hlast
    | some entry =>
      rw [hlast, MountSpec.status] at hstatus
      split at hstatus <;> cases hstatus
  refine ⟨hnil, ?_⟩
  rw [(Table.mount_of_not_failing (hh.table spec.target)).2, stack_append, hnil,
    stack_ofSpec (Path.same_refl _), List.nil_append]

/-- **Undoing a mount takes it down.** -/
theorem run_revert (links : Path → Option Path) (hh : h.Untroubled)
    (hstack : stack spec.target h.table.entries = [.ofSpec spec]) :
    ((revert spec (.mount true)).run (Host.reply links) h).1 = .ok () ∧
      stack spec.target ((revert spec (.mount true)).run (Host.reply links) h).2.table.entries = [] := by
  have htop : topmost spec.target h.table.entries = some (.ofSpec spec) := by
    rw [topmost_eq, hstack]
    rfl
  have hstatus : spec.status links (topmost spec.target h.table.entries) = .matching := by
    rw [htop]
    exact if_pos (MountEntry.satisfies_ofSpec links spec)
  have hne : stack spec.target h.table.entries ≠ [] := by simp [hstack]
  obtain ⟨hreply, hdown⟩ := (Table.unmount_of_not_failing (hh.table spec.target)).2 hne
  have hfind : (Effect.call (.find spec.target)).run (Host.reply links) h =
      (.ok (some (.ofSpec spec)), h) := by
    rw [← htop]
    rfl
  have hcall : (Effect.call (.unmount spec.target)).run (Host.reply links) h =
      (.ok (), { h with table := (h.table.unmount spec.target).2 }) := Prod.ext hreply rfl
  have hunmount : (unmount spec.target).run (Host.reply links) h =
      (.ok true, { h with table := (h.table.unmount spec.target).2 }) := by
    unfold unmount
    rw [run_bind, hfind]
    dsimp only
    rw [run_bind, hcall]
    rfl
  unfold revert
  rw [if_pos rfl, run_bind, run_inspect, hstatus]
  dsimp only
  rw [run_bind, hunmount]
  refine ⟨rfl, ?_⟩
  rw [hstack] at hdown
  exact hdown

end Mount

namespace Units

open Mock.Manager

variable {unit : ServiceUnit} {u u' : Flags}

/-- No operation that is missing is refused by the unit: it is told to reload only while it
runs. -/
theorem effects_delta (unit : ServiceUnit) {m : Manager} {name : String} (hu : m.unit? name = some u) :
    ∃ u', effects name u (delta unit (m.state name)) = .ok u' := by
  have henabled : (m.state name).isEnabled = u.enabled := reads_state hu .enabled
  have hactive : (m.state name).isActive = u.active := reads_state hu .active
  simp only [delta, activation, refreshment, henabled, hactive, isFixed_state]
  -- a unit has four states, and there are finitely many things to ask of it
  obtain ⟨-, enabled, active, -, refresh⟩ := unit
  obtain ⟨isEnabled, isActive⟩ := u
  rcases enabled with _ | _ | _ <;> rcases active with _ | _ | _ <;> rcases refresh with _ | _ | _ <;>
    cases isEnabled <;> cases isActive <;> exact ⟨_, rfl⟩

/-- An operation that the unit does not refuse succeeds. -/
theorem issue_effect {m : Manager} {op : UnitOp} {name : String} (hm : m.mishap? op name = none)
    (hu : m.unit? name = some u) (heffect : effect name u op = .ok u') :
    (m.issue op name).1 = .ok () ∧ (m.issue op name).2.unit? name = some u' := by
  have hunit : (m.arrived op name).unit? name = some u := hu
  rw [issue_of_no_mishap hm, carryOut_of_unit? hunit heffect]
  exact ⟨rfl, by rw [unit?_setUnit, if_pos rfl]⟩

/-- Operations that the unit does not refuse are all issued. -/
theorem run_issueAll (links : Path → Option Path) (ops : List UnitOp) :
    ∀ (uncertain issued : List UnitOp) {h : Host} {u : Flags}, h.Untroubled →
      h.manager.unit? unit.unitName = some u → effects unit.unitName u ops = .ok u' →
      ((issueAll unit uncertain issued ops).run (Host.reply links) h).1 = (.ok (), uncertain) ∧
        ((issueAll unit uncertain issued ops).run (Host.reply links) h).2.manager.unit? unit.unitName =
          some u' := by
  induction ops with
  | nil =>
    intro uncertain issued h u _ hu heffects
    obtain rfl : u = u' := Except.ok.inj heffects
    exact ⟨rfl, hu⟩
  | cons op rest ih =>
    intro uncertain issued h u hh hu heffects
    obtain ⟨v, hv, hrest⟩ := effects_cons heffects
    obtain ⟨hreply, hunit⟩ := issue_effect (hh.manager op unit.unitName) hu hv
    have hcall : (Effect.call (.issue op unit.unitName)).run (Host.reply links) h =
        (.ok (), (Host.answer (.issue op unit.unitName) h).2) := Prod.ext hreply rfl
    unfold issueAll
    rw [run_bind, hcall]
    exact ih uncertain (issued ++ [op]) (hh.answer (.issue op unit.unitName)) hunit hrest

/-- Inverses that the unit does not refuse are all issued. -/
theorem run_undoEach (ops : List UnitOp) : ∀ {name : String} {h : Host} {u : Flags}, h.Untroubled →
    h.manager.unit? name = some u → effects name u ops = .ok u' →
      ((undoEach name ops).run (Host.reply links) h).1 = .ok () ∧
        ((undoEach name ops).run (Host.reply links) h).2.manager.unit? name = some u' := by
  induction ops with
  | nil =>
    intro name h u _ hu heffects
    obtain rfl : u = u' := Except.ok.inj heffects
    exact ⟨rfl, hu⟩
  | cons op rest ih =>
    intro name h u hh hu heffects
    obtain ⟨v, hv, hrest⟩ := effects_cons heffects
    obtain ⟨hreply, hunit⟩ := issue_effect (hh.manager op name) hu hv
    have hcall : (Effect.call (.undo op name)).run (Host.reply links) h =
        (.ok (), (Host.answer (.undo op name) h).2) := Prod.ext hreply rfl
    obtain ⟨hothers, hafter⟩ := ih (hh.answer (.undo op name)) hunit hrest
    unfold undoEach
    rw [run_bind, hcall, run_bind]
    exact ⟨hothers, hafter⟩

/-- **Undoing operations that were issued brings the unit back.** -/
theorem run_revert (links : Path → Option Path) (hh : h.Untroubled) {ops : List UnitOp}
    (hu : h.manager.unit? unit.unitName = some u')
    (hback : ∀ b, Switch.takeBack b ops (u'.get b) = u.get b) :
    ((revert unit ops).run (Host.reply links) h).1 = .ok () ∧
      ((revert unit ops).run (Host.reply links) h).2.manager.unit? unit.unitName = some u := by
  have hinverse : ∀ op ∈ ops.reverse.filterMap UnitOp.inverse?, op ≠ .reload := by
    intro op hop
    obtain ⟨op', -, hinv⟩ := List.mem_filterMap.1 hop
    cases op' <;> cases hinv <;> simp
  obtain ⟨v, hv⟩ := exists_effects unit.unitName u' hinverse
  obtain rfl : v = u := Flags.ext_get fun b => by
    rw [get_effects hv b, Switch.putAll_inverses, hback b]
  exact run_undoEach _ hh hu hv

/-- Having the manager read its configuration again changes no unit. -/
theorem run_reloadIfAsked (links : Path → Option Path) (unit : ServiceUnit) (hh : h.Untroubled) :
    ∃ h₁ : Host, h₁.Untroubled ∧ (reloadIfAsked unit).run (Host.reply links) h = (.ok (), h₁) ∧
      h₁.manager.unit? = h.manager.unit? := by
  unfold reloadIfAsked
  split
  · exact ⟨_, hh.answer .reloadManager, rfl, rfl⟩
  · exact ⟨h, hh, rfl, rfl⟩

theorem run_diff (links : Path → Option Path) (unit : ServiceUnit) (h : Host) :
    (diff unit).run (Host.reply links) h =
      ((known unit (h.manager.state unit.unitName)).map (delta unit), h) := rfl

/-- A unit that does not exist is not brought to any state. -/
theorem run_reconcile_unknown (links : Path → Option Path) (hh : h.Untroubled)
    (hu : h.manager.unit? unit.unitName = none) :
    ∃ h₁ : Host, (reconcile unit []).run (Host.reply links) h =
      ((.error (.noSuchUnit unit.unitName), []), h₁) ∧ h₁.manager.unit? = h.manager.unit? := by
  obtain ⟨h₁, -, hreload, hunits⟩ := run_reloadIfAsked links unit hh
  have hunknown : known unit (h₁.manager.state unit.unitName) = .error (.noSuchUnit unit.unitName) := by
    rw [known, isLoaded_state, hunits, hu]
    rfl
  refine ⟨h₁, ?_, hunits⟩
  unfold reconcile
  rw [run_bind, hreload]
  dsimp only
  rw [run_bind, run_diff, hunknown]
  rfl

/-- **What reconciling comes to**: the operations that are missing are issued, and take effect. -/
theorem run_reconcile_known (links : Path → Option Path) (hh : h.Untroubled)
    (hu : h.manager.unit? unit.unitName = some u) :
    ∃ (h₁ : Host) (u' : Flags), (reconcile unit []).run (Host.reply links) h =
        ((.ok (.service (delta unit (h.manager.state unit.unitName))), []), h₁) ∧
      h₁.manager.unit? unit.unitName = some u' ∧
      ∀ b, u'.get b = Switch.putAll b (delta unit (h.manager.state unit.unitName)) (u.get b) := by
  obtain ⟨h₁, hh₁, hreload, hunits⟩ := run_reloadIfAsked links unit hh
  have hu₁ : h₁.manager.unit? unit.unitName = some u := (congrFun hunits _).trans hu
  have hstate : h₁.manager.state unit.unitName = h.manager.state unit.unitName :=
    state_congr (congrFun hunits _)
  have hknown : known unit (h₁.manager.state unit.unitName) = .ok (h.manager.state unit.unitName) := by
    rw [known, isLoaded_state, hu₁, hstate]
    rfl
  obtain ⟨u', hu'⟩ := effects_delta unit hu
  obtain ⟨hissued, hafter⟩ := run_issueAll links _ [] [] hh₁ hu₁ hu'
  refine ⟨_, u', ?_, hafter, get_effects hu'⟩
  unfold reconcile
  rw [run_bind, hreload]
  dsimp only
  rw [run_bind, run_diff, hknown]
  dsimp only [Except.map]
  rw [run_bind, hissued]
  rfl

/-- Only units that exist are brought to a state, and that succeeds. -/
theorem trial_unknown (links : Path → Option Path) (hh : h.Untroubled)
    (hu : h.manager.unit? unit.unitName = none) :
    ((StepAction.service unit).trial links h).1 = .error (.noSuchUnit unit.unitName) ∧
      ((StepAction.service unit).trial links h).2.manager.unit? unit.unitName =
        none := by
  obtain ⟨h₁, hrun, hunits⟩ := run_reconcile_unknown links hh hu
  unfold StepAction.trial StepAction.attempt
  rw [run_bind, hrun]
  exact ⟨rfl, (congrFun hunits _).trans hu⟩

theorem trial_known (links : Path → Option Path) (hh : h.Untroubled)
    (hu : h.manager.unit? unit.unitName = some u) :
    ((StepAction.service unit).trial links h).1 =
        .ok (.service (delta unit (h.manager.state unit.unitName))) ∧
      ∃ u', ((StepAction.service unit).trial links h).2.manager.unit? unit.unitName = some u' ∧
        ∀ b, u'.get b = Switch.putAll b (delta unit (h.manager.state unit.unitName)) (u.get b) := by
  obtain ⟨h₁, u', hrun, hafter, hput⟩ := run_reconcile_known links hh hu
  unfold StepAction.trial StepAction.attempt
  rw [run_bind, hrun]
  refine ⟨?_, u', hafter, hput⟩
  show Except.ok (Change.service (mergeOps _ [])) = _
  rw [mergeOps_delta]

end Units

namespace StepAction

variable {action : StepAction} {change : Change} {e : HostError}

/-- The first attempt does not fail in a way that is worth another one. -/
theorem run_apply (policy : Retry) (action : StepAction) (hh : h.Untroubled) :
    (action.apply policy).run (Host.reply links) h = action.trial links h := by
  cases action with
  | mount spec =>
    refine policy.run_repeating _ fun e he => ?_
    rw [Mount.run_mount links spec hh] at he
    split at he
    · cases he
    · cases he
    · obtain rfl := Except.error.inj he
      rfl
  | service unit =>
    have hfinal : ∀ e, ((Units.reconcile unit []).run (Host.reply links) h).1.1 = .error e →
        e.isTransient = false := by
      intro e he
      cases hu : h.manager.unit? unit.unitName with
      | none =>
        obtain ⟨h₁, hrun, -⟩ := Units.run_reconcile_unknown links hh hu
        rw [hrun] at he
        obtain rfl := Except.error.inj he
        rfl
      | some u =>
        obtain ⟨h₁, u', hrun, -⟩ := Units.run_reconcile_known links hh hu
        rw [hrun] at he
        cases he
    have hattempts := policy.run_attempts (Host.reply links) hfinal
    unfold apply trial attempt
    rw [run_bind, run_bind, hattempts]

/-- **An action that fails leaves its site as it was.** -/
theorem holds_of_failed (hh : h.Untroubled) (hfailed : (action.trial links h).1 = .error e) :
    (action.trial links h).2.holds action.site = h.holds action.site := by
  cases action with
  | mount spec =>
    have hrun : (mount spec).trial links h = _ := Mount.run_mount links spec hh
    rw [hrun] at hfailed ⊢
    split at hfailed
    · cases hfailed
    · cases hfailed
    · rfl
  | service unit =>
    cases hu : h.manager.unit? unit.unitName with
    | none => exact congrArg Sum.inr ((Units.trial_unknown links hh hu).2.trans hu.symm)
    | some u =>
      rw [(Units.trial_known links hh hu).1] at hfailed
      cases hfailed

/-- An operation that succeeds is not repeated. -/
theorem run_repeating_ok (policy : Retry) {p : Effects (Except HostError Unit)}
    (hok : (p.run (Host.reply links) h).1 = .ok ()) :
    (policy.repeating p).run (Host.reply links) h = p.run (Host.reply links) h := by
  refine policy.run_repeating _ fun e he => ?_
  rw [hok] at he
  cases he

/-- A file system that was mounted is taken down again, and one that was there is left alone. -/
theorem run_rollback_mount {spec : MountSpec} (policy : Retry) (hh : h.Untroubled)
    (hh' : h'.Untroubled) (happlied : ((mount spec).trial links h).1 = .ok change)
    (hstack : Mount.stack spec.target h'.table.entries =
      Mount.stack spec.target ((mount spec).trial links h).2.table.entries) :
    (((mount spec).rollback policy change).run (Host.reply links) h').1 = .ok () ∧
      Mount.stack spec.target (((mount spec).rollback policy change).run (Host.reply links) h').2.table.entries =
        Mount.stack spec.target h.table.entries := by
  have hrun : (mount spec).trial links h = _ := Mount.run_mount links spec hh
  cases hstatus : spec.status links (Mount.topmost spec.target h.table.entries) with
  | absent =>
    rw [hstatus] at hrun
    rw [hrun] at happlied hstack
    obtain rfl := Except.ok.inj happlied
    obtain ⟨hnil, hmounted⟩ := Mount.stack_of_mounted hh hstatus
    have hundo := Mount.run_revert links hh' (hstack.trans hmounted)
    have hrollback : ((mount spec).rollback policy (.mount true)).run (Host.reply links) h' =
        (Mount.revert spec (.mount true)).run (Host.reply links) h' := run_repeating_ok policy hundo.1
    rw [hrollback]
    exact ⟨hundo.1, hundo.2.trans hnil.symm⟩
  | matching =>
    -- nothing was changed, and nothing is undone
    rw [hstatus] at hrun
    rw [hrun] at happlied hstack
    obtain rfl := Except.ok.inj happlied
    exact ⟨rfl, hstack⟩
  | conflicting observed =>
    rw [hstatus] at hrun
    rw [hrun] at happlied
    cases happlied

/-- The switches of a unit are turned back. -/
theorem run_rollback_service {unit : ServiceUnit} (policy : Retry) (hh : h.Untroubled)
    (hh' : h'.Untroubled) (happlied : ((service unit).trial links h).1 = .ok change)
    (hunit : h'.manager.unit? unit.unitName =
      ((service unit).trial links h).2.manager.unit? unit.unitName) :
    (((service unit).rollback policy change).run (Host.reply links) h').1 = .ok () ∧
      (((service unit).rollback policy change).run (Host.reply links) h').2.manager.unit? unit.unitName =
        h.manager.unit? unit.unitName := by
  cases hu : h.manager.unit? unit.unitName with
  | none =>
    rw [(Units.trial_unknown links hh hu).1] at happlied
    cases happlied
  | some u =>
    obtain ⟨hresult, u', hu', hput⟩ := Units.trial_known links hh hu
    obtain rfl := Except.ok.inj (hresult.symm.trans happlied)
    have hback : ∀ b, Switch.takeBack b (Units.delta unit (h.manager.state unit.unitName)) (u'.get b) =
        u.get b := by
      intro b
      have hroute := Units.route_delta unit (h.manager.state unit.unitName) b
      rw [Manager.reads_state hu] at hroute
      rw [hput b, hroute.takeBack_putAll]
    have hundo := Units.run_revert links hh' (hunit.trans hu') hback
    generalize Units.delta unit (h.manager.state unit.unitName) = ops at hundo
    have hrollback : ((service unit).rollback policy (.service ops)).run (Host.reply links) h' =
        (Units.revert unit ops).run (Host.reply links) h' := by
      cases ops with
      | nil => rfl
      | cons op rest => exact run_repeating_ok policy hundo.1
    rw [hrollback]
    exact hundo

/-- **Undoing an action that was applied succeeds, and brings back what its site held.** -/
theorem run_rollback (policy : Retry) (hh : h.Untroubled) (hh' : h'.Untroubled)
    (happlied : (action.trial links h).1 = .ok change)
    (hsite : h'.holds action.site = (action.trial links h).2.holds action.site) :
    ((action.rollback policy change).run (Host.reply links) h').1 = .ok () ∧
      ((action.rollback policy change).run (Host.reply links) h').2.holds action.site =
        h.holds action.site := by
  cases action with
  | mount spec =>
    obtain ⟨hok, hstack⟩ := run_rollback_mount policy hh hh' happlied (Sum.inl.inj hsite)
    exact ⟨hok, congrArg Sum.inl hstack⟩
  | service unit =>
    obtain ⟨hok, hunit⟩ := run_rollback_service policy hh hh' happlied (Sum.inr.inj hsite)
    exact ⟨hok, congrArg Sum.inr hunit⟩

end StepAction

end Trial

end Provision
