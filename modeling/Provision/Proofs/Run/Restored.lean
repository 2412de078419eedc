import Provision.Proofs.Run.MountLedger
import Provision.Proofs.Run.UnitLedger

/-!
# A run that was aborted leaves the host as it was

* `run_restores`: **if only calls that go forward fail, a run that was aborted leaves the
  mount table and every switch of every unit as they were**, and says so.
-/

namespace Provision.Orchestrator

open Script Mount

variable {o : Orchestrator} {registry : Registry} {skip : List String} {host : Mock.Host}
  {report : RunReport} {t : Stage} {cause : AbortCause}

/-- **A run that was aborted leaves the host as it was**, whatever fails going forward, as
long as no call fails that takes something back, and the mount table can be looked at. -/
theorem run_restores
    (hr : (o.run registry skip).run.Reaches (Stage.setting fun _ c => c.goesForward = true) ⟨host, []⟩
      (.done (.ok report)) t) (h : report.status = .aborted cause) :
    report.rollbackClean = true ∧ t.host.table.entries = host.table.entries ∧
      ∀ unit b, t.host.manager.shows unit b = host.manager.shows unit b := by
  have htable := (tableLedger Stage.lawful_setting fun _ => Stage.succeeds_of_forward).undone id
    (stacked_nil.2 rfl) rfl hr h
  refine ⟨htable.1, stacked_nil.1 htable.2, fun unit b => ?_⟩
  exact ((unitLedger_of_forward Stage.lawful_setting fun _ => Stage.succeeds_of_forward).undone id
    rfl rfl hr h).2

/-- A share, and a unit that needs it. -/
def served : Registry :=
  ⟨[⟨"share", [], .mount ⟨"tmpfs", ⟨"/srv"⟩, "tmpfs", []⟩⟩,
    ⟨"web", ["share"], .service { name := "web", enabled := some true, active := some true }⟩]⟩

theorem built_served : served.Built :=
  Registry.built_ofPlanFile (show Registry.ofPlanFile ⟨1, none, served.steps⟩ = .ok served from rfl)

/-- A host on which a unit is disabled and does not run, and some calls are told to fail. -/
def webHost (scripted : List Mock.Scripted) : Mock.Host :=
  { manager := { units := [("web.service", {})], scripted } }

/-- The unit is enabled but cannot be started: it is disabled again, and the share is
unmounted. -/
theorem run_restores_masked : ∃ report t,
    ((⟨default, .immediate 2⟩ : Orchestrator).run served []).run.Reaches
      (Stage.setting fun _ c => c.goesForward = true)
      ⟨webHost [⟨.start, "web.service", .rejected, 1⟩], []⟩ (.done (.ok report)) t ∧
    report.status = .aborted .failure ∧ report.rollbackClean = true ∧
      t.host.table.entries = [] ∧ ∀ unit b, t.host.manager.shows unit b =
        (webHost [⟨.start, "web.service", .rejected, 1⟩]).manager.shows unit b := by
  obtain ⟨report, t, hwalk, hstatus⟩ : ∃ report t,
      ((⟨default, .immediate 2⟩ : Orchestrator).run served []).run.walk Stage.play
        (Stage.admits fun _ c => c.goesForward) 60
        ⟨webHost [⟨.start, "web.service", .rejected, 1⟩], []⟩ = some (.done (.ok report), t) ∧
      report.status = .aborted .failure := ⟨_, _, rfl, rfl⟩
  have hr := Reaches.of_walk Stage.setting_play hwalk
  exact ⟨report, t, hr, hstatus, run_restores hr hstatus⟩

end Provision.Orchestrator
