import Provision.Proofs.Run.Outcome
import Provision.Proofs.Run.Restored

/-!
# What a run that was aborted leaves behind

* `run_names_residue`: **what a run that was aborted leaves behind its log names, and its
  report says that the rollback was not clean**. For a switch of a unit that takes that
  what undoes an operation on the unit while a step is in flight takes effect.
* `run_forgets_residue`: if it does not, what it leaves behind is forgotten.
-/

namespace Provision

open Script Mount Orchestrator

namespace Stage

/-- Every call may fail, but for those that look at the mount table. -/
def anyFailure (_ : Stage) : HostCall → Bool
  | .find _ => false
  | _ => true

/-- Every call may fail, but what undoes an operation on a unit while a step is in flight
takes effect on a switch. Its reply may still be lost. -/
def sparing (unit : String) (b : Switch) : Setting Effect.interface Stage := fun s e x t =>
  setting (fun _ _ => True) s e x t ∧ ∀ op, e = .host (.undo op unit) → s.isInFlight = true →
    t.host.manager.shows unit b = op.put b (s.host.manager.shows unit b)

/-- What undoes an operation on a unit while a step is in flight takes effect on a switch,
as a stage replies. -/
def spares (unit : String) (b : Switch) : Effect → Stage → Bool
  | .host (.undo op name), s => !s.isInFlight || name ≠ unit ||
    (play (.host (.undo op name)) s).2.host.manager.shows unit b = op.put b (s.host.manager.shows unit b)
  | _, _ => true

theorem sparing_play {unit : String} {b : Switch} (s : Stage) (e : Effect)
    (h : spares unit b e s = true) : sparing unit b s e (play e s).1 (play e s).2 := by
  have hadmits : admits (fun _ _ => true) e s = true := by cases e <;> rfl
  refine ⟨lawful_setting _ _ _ _ (setting_play s e hadmits), ?_⟩
  rintro op rfl hflight
  simpa [spares, hflight] using h

end Stage

namespace Orchestrator

variable {o : Orchestrator} {registry : Registry} {skip : List String} {host : Mock.Host}

/-- **What a run that was aborted leaves behind at a target or of a unit, its log names**, and
its report says that the rollback was not clean. Of a unit that takes that what undoes an
operation on it while a step is in flight takes effect. -/
theorem run_names_residue (hb : registry.Built) :
    (∀ target report t cause,
      (o.run registry skip).run.Reaches (Stage.setting fun s c => s.anyFailure c = true) ⟨host, []⟩
        (.done (.ok report)) t → report.status = .aborted cause →
      stack target t.host.table.entries ≠ stack target host.table.entries →
      Ledger.NamesLeftover (·.IsAt target) report t) ∧
    ∀ unit b report t cause,
      (o.run registry skip).run.Reaches (Stage.sparing unit b) ⟨host, []⟩ (.done (.ok report)) t →
      report.status = .aborted cause →
      t.host.manager.shows unit b ≠ host.manager.shows unit b →
      Ledger.NamesLeftover (·.IsOn unit) report t := by
  refine ⟨fun target report t cause hr hstatus hdiff => ?_,
    fun unit b report t cause hr hstatus hdiff => ?_⟩
  · have hfind : ∀ target, Stage.Succeeds (Stage.setting fun s c => s.anyFailure c = true) (.find target) :=
      fun _ => Stage.succeeds_setting fun _ => Bool.false_ne_true
    have hended := (targetLedger True Stage.lawful_setting hfind (absurd trivial)).undone_or_left hb
      (takesDown_nil target _) rfl hr hstatus
    exact hended.resolve_left fun htracks => hdiff htracks.stack_eq
  · have hundo : TakesEffect unit b (Stage.sparing unit b) := fun s op x t hx hflight =>
      hx.2 op rfl hflight
    have hended := (unitLedger True (fun s e x t hx => hx.1) hundo (absurd trivial)).undone_or_left hb
      rfl rfl hr hstatus
    exact hended.resolve_left hdiff

/-- Two units of which the second cannot be started, and then the first not stopped. -/
def stuckHost : Mock.Host :=
  { manager := { units := [("a.service", {}), ("b.service", {})], scripted :=
      [⟨.start, "b.service", .rejected, 1⟩, ⟨.stop, "a.service", .rejected, 1⟩] } }

/-- The first unit goes on running, and the log names it. -/
theorem run_names_residue_stuck : ∃ report t,
    ((⟨default, .immediate 2⟩ : Orchestrator).run inTurn []).run.Reaches
      (Stage.sparing "a.service" .active) ⟨stuckHost, []⟩ (.done (.ok report)) t ∧
    report.status = .aborted .failure ∧
    t.host.manager.shows "a.service" .active ≠ stuckHost.manager.shows "a.service" .active ∧
    Ledger.NamesLeftover (·.IsOn "a.service") report t := by
  have hb : inTurn.Built :=
    Registry.built_ofPlanFile (show Registry.ofPlanFile ⟨1, none, inTurn.steps⟩ = .ok inTurn from rfl)
  obtain ⟨report, t, hwalk, hstatus, hdiff⟩ : ∃ report t,
      ((⟨default, .immediate 2⟩ : Orchestrator).run inTurn []).run.walk Stage.play
        (Stage.spares "a.service" .active) 60 ⟨stuckHost, []⟩ = some (.done (.ok report), t) ∧
      report.status = .aborted .failure ∧
      t.host.manager.shows "a.service" .active ≠ stuckHost.manager.shows "a.service" .active :=
    ⟨_, _, rfl, rfl, by decide⟩
  have hr := Reaches.of_walk Stage.sparing_play hwalk
  exact ⟨report, t, hr, hstatus, hdiff, (run_names_residue hb).2 _ _ report t _ hr hstatus hdiff⟩

/-- A unit is enabled but cannot be started, and then not disabled. It stays enabled, while
the log of the run names nothing that is left to undo and its report says that the rollback
was clean. -/
theorem run_forgets_residue : served.Built ∧ ∃ report t log,
    ((⟨default, .immediate 2⟩ : Orchestrator).run served []).run.Reaches
      (Stage.setting fun s c => s.anyFailure c = true)
      ⟨webHost [⟨.start, "web.service", .rejected, 1⟩, ⟨.disable, "web.service", .rejected, 1⟩], []⟩
      (.done (.ok report)) t ∧ report.status = .aborted .failure ∧
    t.host.manager.shows "web.service" .enabled = true ∧
    (webHost [⟨.start, "web.service", .rejected, 1⟩,
      ⟨.disable, "web.service", .rejected, 1⟩]).manager.shows "web.service" .enabled = false ∧
    report.rollbackClean = true ∧ t.saved.head? = some log ∧ leftover log = [] := by
  have hb : served.Built :=
    Registry.built_ofPlanFile (show Registry.ofPlanFile ⟨1, none, served.steps⟩ = .ok served from rfl)
  refine ⟨hb, ?_⟩
  obtain ⟨report, t, log, hwalk, hrest⟩ : ∃ report t log,
      ((⟨default, .immediate 2⟩ : Orchestrator).run served []).run.walk Stage.play
        (Stage.admits fun s c => s.anyFailure c) 60
        ⟨webHost [⟨.start, "web.service", .rejected, 1⟩, ⟨.disable, "web.service", .rejected, 1⟩], []⟩ =
          some (.done (.ok report), t) ∧
      report.status = .aborted .failure ∧ t.host.manager.shows "web.service" .enabled = true ∧
      (webHost [⟨.start, "web.service", .rejected, 1⟩,
        ⟨.disable, "web.service", .rejected, 1⟩]).manager.shows "web.service" .enabled = false ∧
      report.rollbackClean = true ∧ t.saved.head? = some log ∧ leftover log = [] :=
    ⟨_, _, _, rfl, rfl, by decide, by decide, rfl, rfl, rfl⟩
  exact ⟨report, t, log, Reaches.of_walk Stage.setting_play hwalk, hrest⟩

end Orchestrator

end Provision
