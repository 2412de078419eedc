import Provision.Proofs.Mock.Stage
import Provision.Proofs.Units.Turning

/-!
# Whether undoing what was recorded undoes all that was done

An action on a unit is applied with retries, and what it records is undone while no call fails.

* `Stage.reverting`: what undoes an operation on a unit takes effect on a switch.
* `takeBack_eq_iff`: a switch is taken back by operations that turned it, or is where it was.
* `rollback_undoes_apply`: **a switch is back where it was, unless what the action did to it is not
  recorded at all**; which cannot be if what undoes an operation always takes effect.
* `rollback_leaves_enabled`: if it does not, a unit can stay enabled.
-/

namespace Provision

open Script Switch

namespace Stage

/-- Every call may fail, but what undoes an operation on a unit takes effect on a switch. Its reply
may still be lost. -/
def reverting (unit : String) (b : Switch) : Setting Effect.interface Stage := fun s e x t =>
  setting (fun _ _ => True) s e x t ∧ ∀ op, e = .host (.undo op unit) →
    t.host.manager.shows unit b = op.put b (s.host.manager.shows unit b)

/-- What undoes an operation on a unit takes effect on a switch, as a stage replies. -/
def reverts (unit : String) (b : Switch) : Effect → Stage → Bool
  | .host (.undo op name), s => name ≠ unit ||
    (play (.host (.undo op name)) s).2.host.manager.shows unit b = op.put b (s.host.manager.shows unit b)
  | _, _ => true

theorem reverting_play {unit : String} {b : Switch} (s : Stage) (e : Effect)
    (h : reverts unit b e s = true) : reverting unit b s e (play e s).1 (play e s).2 := by
  have hadmits : admits (fun _ _ => true) e s = true := by cases e <;> rfl
  refine ⟨lawful_setting _ _ _ _ (setting_play s e hadmits), ?_⟩
  rintro op rfl
  simpa [reverts] using h

end Stage

/-- Operations that turned a switch from one place only take it back there, and others leave it. -/
theorem Switch.takeBack_eq_iff {b : Switch} {x₀ x : Bool} {ops : List UnitOp} (h : TurnsFrom b x₀ ops) :
    takeBack b ops x = x₀ ↔ (∃ op ∈ ops, op.turned? b ≠ none) ∨ x = x₀ := by
  by_cases hturned : ∃ op ∈ ops, op.turned? b ≠ none
  · obtain ⟨op, hop, hne⟩ := hturned
    obtain ⟨v, hv⟩ := Option.ne_none_iff_exists'.1 hne
    rw [takeBack_of_turned hop hv x x₀, h.takeBack]
    exact ⟨fun _ => .inl ⟨op, hop, hne⟩, fun _ => rfl⟩
  · have hidle : ∀ op ∈ ops, op.turned? b = none := by simpa using hturned
    rw [takeBack_of_idle hidle]
    exact ⟨.inr, fun hback => hback.resolve_left hturned⟩

namespace StepAction

variable {policy : Retry} {unit : ServiceUnit} {b : Switch} {ops : List UnitOp} {t u : Stage}
  {r : Except HostError Unit}

/-- Undoing a change while no call fails takes a switch back, and says so. -/
theorem rollback_takesBack
    (h : ((StepAction.service unit).rollback policy (.service ops)).Reaches Stage.sound t (.done r) u) :
    r = .ok () ∧ u.host.manager.shows unit.unitName b =
      takeBack b ops (t.host.manager.shows unit.unitName b) := by
  have honly := only_rollback policy (.service unit) (.service ops)
  have hback : ∀ c : HostCall, c.goesForward = false → Stage.Succeeds Stage.sound c :=
    fun _ _ => Stage.succeeds_sound
  have hok : r.isOk = true := ((Stage.ensures_of_willing honly hback
    (ensures_rollback_ok policy trivial)).sound h).2
  -- what undoes an operation succeeds, so it takes effect
  have hsure : True → ∀ s op x s', s.saved = t.saved →
      Stage.sound s (.host (.undo op unit.unitName)) x s' →
      s'.host.manager.shows unit.unitName b = op.put b (s.host.manager.shows unit.unitName b) :=
    fun _ s op x s' _ hx =>
      Stage.lawful_sound.shows_undo hx (hback (.undo op unit.unitName) rfl s x s' hx) b
  have hends := ((Stage.lawful_sound.ensures_of_switch b True honly hsure
    (Units.ensures_rollback_switch policy unit b ops _)).sound h).2
  cases r with
  | error e => cases hok
  | ok _ => exact ⟨rfl, hends.resolve_right fun hfailed => hfailed.1 trivial⟩

/-- **What an action recorded is undone.** Whatever failed while it was applied, a switch of its unit
is back where it was before if and only if what was recorded has an operation on the switch, or
applying left it there. It is back in any case if what undoes an operation takes effect on the
switch while the action is applied. -/
theorem rollback_undoes_apply (policy policy' : Retry) (unit : ServiceUnit) (host : Mock.Host)
    (b : Switch) :
    (∀ change t r u,
      ((StepAction.service unit).apply policy).Reaches (Stage.setting fun _ _ => True) ⟨host, []⟩
        (.done (.ok change)) t →
      ((StepAction.service unit).rollback policy' change).Reaches Stage.sound t (.done r) u →
      r = .ok () ∧ ∃ ops, change = .service ops ∧
        (u.host.manager.shows unit.unitName b = host.manager.shows unit.unitName b ↔
          (∃ op ∈ ops, op.turned? b ≠ none) ∨
            t.host.manager.shows unit.unitName b = host.manager.shows unit.unitName b)) ∧
    ∀ change t r u,
      ((StepAction.service unit).apply policy).Reaches (Stage.reverting unit.unitName b) ⟨host, []⟩
        (.done (.ok change)) t →
      ((StepAction.service unit).rollback policy' change).Reaches Stage.sound t (.done r) u →
      u.host.manager.shows unit.unitName b = host.manager.shows unit.unitName b := by
  have honly := only_apply policy (.service unit)
  refine ⟨fun change t r u happly hback => ?_, fun change t r u happly hback => ?_⟩
  · obtain ⟨ops, rfl, hturns⟩ := ((Stage.lawful_setting.ensures_of_switch b False honly False.elim
      (Units.ensures_apply_turns policy unit b _)).sound happly).2 _ rfl
    obtain ⟨hok, hends⟩ := rollback_takesBack (b := b) hback
    refine ⟨hok, ops, rfl, ?_⟩
    rw [hends]
    exact takeBack_eq_iff hturns
  · have hlawful : Stage.Lawful (Stage.reverting unit.unitName b) := fun _ _ _ _ hx => hx.1
    obtain ⟨ops, rfl, hends⟩ := ((hlawful.ensures_of_switch b True honly
      (fun _ s op x s' _ hx => hx.2 op rfl) (Units.ensures_apply_switch policy unit b _)).sound happly).2
    rw [(rollback_takesBack hback).2]
    exact hends

/-- A unit that is to be enabled and to run. -/
def wanted : ServiceUnit := { name := "web", enabled := some true, active := some true }

/-- A host on which the unit is disabled and does not run. It cannot be started at first, nor can it
be disabled without a failure. -/
def unstarted (onDisable : Mock.Mishap) : Mock.Host :=
  { manager := { units := [("web.service", {})], scripted :=
      [⟨.start, "web.service", .unreachable, 1⟩, ⟨.disable, "web.service", onDisable, 1⟩] } }

/-- The first attempt is undone, and only the reply to that is lost. The second attempt records both
operations, and both are undone. -/
theorem rollback_undoes_apply_retried : ∃ t u,
    (∀ b, ((StepAction.service wanted).apply (.immediate 2)).Reaches (Stage.reverting "web.service" b)
      ⟨unstarted .lostReply, []⟩ (.done (.ok (.service [.enable, .start]))) t) ∧
    ((StepAction.service wanted).rollback (.immediate 1) (.service [.enable, .start])).Reaches Stage.sound t
      (.done (.ok ())) u ∧
    ∀ b, t.host.manager.shows "web.service" b = true ∧
      u.host.manager.shows "web.service" b = (unstarted .lostReply).manager.shows "web.service" b ∧
      ((∃ op ∈ [UnitOp.enable, .start], op.turned? b ≠ none) ∨
        t.host.manager.shows "web.service" b = (unstarted .lostReply).manager.shows "web.service" b) := by
  obtain ⟨t, u, hwalk, hback, htrue⟩ : ∃ t u,
      (∀ b, ((StepAction.service wanted).apply (.immediate 2)).walk Stage.play
        (Stage.reverts "web.service" b) 40 ⟨unstarted .lostReply, []⟩ =
          some (.done (.ok (.service [.enable, .start])), t)) ∧
      ((StepAction.service wanted).rollback (.immediate 1) (.service [.enable, .start])).walk Stage.play
        (Stage.admits fun _ _ => false) 40 t = some (.done (.ok ()), u) ∧
      ∀ b, t.host.manager.shows "web.service" b = true :=
    ⟨_, _, Switch.rec rfl rfl, rfl, Switch.rec (by decide) (by decide)⟩
  have happly := fun b => Reaches.of_walk Stage.reverting_play (hwalk b)
  have hundone := Reaches.of_walk Stage.sound_play hback
  refine ⟨t, u, happly, hundone, fun b => ?_⟩
  obtain ⟨hany, hsure⟩ :=
    rollback_undoes_apply (.immediate 2) (.immediate 1) wanted (unstarted .lostReply) b
  obtain ⟨-, ops, hops, hiff⟩ := hany _ _ _ _
    (Reaches.of_walk (fun s e h => (Stage.reverting_play s e h).1) (hwalk b)) hundone
  cases hops
  have hsame := hsure _ _ _ _ (happly b) hundone
  exact ⟨htrue b, hsame, hiff.1 hsame⟩

/-- The first attempt is not undone, so that the second one finds the unit enabled and records
nothing but that it was started. Undoing that leaves the unit enabled. -/
theorem rollback_leaves_enabled : ∃ t u,
    ((StepAction.service wanted).apply (.immediate 2)).Reaches (Stage.setting fun _ _ => True)
      ⟨unstarted .unreachable, []⟩ (.done (.ok (.service [.start]))) t ∧
    ((StepAction.service wanted).rollback (.immediate 1) (.service [.start])).Reaches Stage.sound t
      (.done (.ok ())) u ∧
    u.host.manager.shows "web.service" .enabled = true ∧
    (unstarted .unreachable).manager.shows "web.service" .enabled = false := by
  obtain ⟨t, u, hwalk, hback, hshows⟩ : ∃ t u,
      ((StepAction.service wanted).apply (.immediate 2)).walk Stage.play
        (Stage.admits fun _ _ => true) 40 ⟨unstarted .unreachable, []⟩ =
          some (.done (.ok (.service [.start])), t) ∧
      ((StepAction.service wanted).rollback (.immediate 1) (.service [.start])).walk Stage.play
        (Stage.admits fun _ _ => false) 40 t = some (.done (.ok ()), u) ∧
      u.host.manager.shows "web.service" .enabled = true ∧
      (unstarted .unreachable).manager.shows "web.service" .enabled = false :=
    ⟨_, _, rfl, rfl, by decide, by decide⟩
  refine ⟨t, u, ?_, Reaches.of_walk Stage.sound_play hback, hshows⟩
  exact Reaches.of_walk
    (fun s e h => Stage.lawful_setting s e _ _ (Stage.setting_play s e h)) hwalk

end StepAction

end Provision
