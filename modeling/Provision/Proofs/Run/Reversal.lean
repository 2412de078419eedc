import Provision.Proofs.Run.Recovery

/-!
# Undoing a run that was completed

* `rollback_reverses`: **rolling back a run that was completed takes the host back to where it
  was before the run**, and the log to an entry for each step that was applied, last one first.
* `rollback_keeps_status`: a run that applied nothing stays completed.
-/

namespace Provision.Orchestrator

open Script Mount

variable {o o' : Orchestrator} {registry : Registry} {skip : List String} {host : Mock.Host}
  {report : RunReport} {log : RunLog} {s t u : Stage}

/-- **Rolling back a run that was completed takes the host back to where it was**, whatever
failed going forward, if no call fails that takes something back. The log has an entry more for
each step that was applied, last one first, and says that the operator had the run undone; if
no step was applied it stays as it is. -/
theorem rollback_reverses (hb : registry.Built)
    (hrun : (o.run registry skip).run.Reaches (Stage.setting fun _ c => c.goesForward = true)
      ⟨host, []⟩ (.done (.ok report)) t) (hstatus : report.status = .completed)
    {r : Except RunError RunReport}
    (hdone : (o'.rollbackRun (some report.runId)).run.Reaches Stage.sound t (.done r) u) :
    ∃ log log' back, t.saved.head? = some log ∧ log.runId = report.runId ∧
      u.saved.head? = some log' ∧ r = .ok (.ofLog log' true) ∧ log'.entries = log.entries ++ back ∧
      Reverts (log.entries.filterMap LogEntry.made?).reverse back ∧
      (log.entries.filterMap LogEntry.made? ≠ [] → log'.status = .aborted .operator) ∧
      (log.entries.filterMap LogEntry.made? = [] → log' = log ∧ log'.status = .completed) ∧
      u.host.table.entries = host.table.entries ∧
      ∀ unit b, u.host.manager.shows unit b = host.manager.shows unit b := by
  have hback : ∀ c : HostCall, c.goesForward = false →
      Stage.Succeeds (Stage.setting fun _ c => c.goesForward = true) c := fun _ => Stage.succeeds_of_forward
  have hsound : ∀ c : HostCall, c.goesForward = false → Stage.Succeeds Stage.sound c :=
    fun _ _ => Stage.succeeds_sound
  -- what was made is left over in the log, and the table is tracked by it
  obtain ⟨log, hlog, hid, hcompleted, htable, hfits, hleft⟩ :=
    (((tableLedger Stage.lawful_setting hback).ensures_run (stacked_nil.2 rfl) rfl).sound hrun).2.completed
      hstatus
  have hmade : leftover log = log.entries.filterMap LogEntry.made? := hleft hb
  rw [← hid] at hdone
  rw [← hmade] at htable hfits
  -- so is each switch
  have hswitch : ∀ unit b, TakesBack unit b (host.manager.shows unit b) (leftover log) t.host := by
    intro unit b
    obtain ⟨log', hlog', -, -, hbits, -⟩ :=
      (((unitLedger_of_forward Stage.lawful_setting hback).ensures_run rfl rfl).sound hrun).2.completed
        hstatus
    obtain rfl : log = log' := Option.some.inj (hlog.symm.trans hlog')
    rw [hmade]
    exact hbits
  have hrolled : ∀ tracks : List Made → Mock.Host → Prop, o'.Undoes tracks → tracks (leftover log) t.host →
      ∃ report', r = .ok report' ∧ Recovered tracks report' u ∧ Reverted log report' u := by
    intro tracks hundoes htracks
    obtain ⟨-, hr⟩ := (ensures_reverted hundoes hlog hfits htracks).sound hdone
    cases r with
    | error e => exact hr.elim
    | ok report' => exact ⟨report', rfl, hr⟩
  obtain ⟨report', rfl, ⟨-, hbelow⟩, log', back, hlog', rfl, hentries, hreverts, hsame, hends⟩ :=
    hrolled (fun made h => Stacked host.table.entries made h.table.entries)
      (undoes_of_ledger (tableLedger Stage.lawful_sound hsound)) htable
  rw [hmade] at hreverts hsame hends
  refine ⟨log, log', back, hlog, hid, hlog', rfl, hentries, hreverts, fun hne => ?_, fun hnil => ?_,
    stacked_nil.1 hbelow, fun unit b => ?_⟩
  · rw [hends hne, hcompleted]
    rfl
  · rw [hsame hnil]
    exact ⟨rfl, hcompleted⟩
  · obtain ⟨-, -, ⟨-, hbits⟩, -⟩ := hrolled (TakesBack unit b (host.manager.shows unit b))
      (undoes_of_ledger (unitLedger_of_forward Stage.lawful_sound hsound)) (hswitch unit b)
    exact hbits

/-- What is left to do of rolling back a run once its log has been loaded. -/
def rollbackLoaded (o : Orchestrator) (log : RunLog) : Effects (Except RunError RunReport) := ExceptT.run do
  let result ← ExceptT.lift (o.rollbackLog log).run
  Script.request (I := Effect.interface) .unlock
  ExceptT.mk (.done result)

/-- The log that was put on disk last is the one that is loaded. -/
theorem reaches_rollbackRun {r : Except RunError RunReport} (hlog : s.saved.head? = some log)
    (h : (o.rollbackLoaded log).Reaches Stage.sound s (.done r) u) :
    (o.rollbackRun (some log.runId)).run.Reaches Stage.sound s (.done r) u := by
  have hlock : Stage.sound s .lock (.ok true) s := ⟨rfl, rfl⟩
  have hload : Stage.sound s (.load log.runId) (.ok log) s := by
    refine ⟨rfl, fun log' hlog' => ?_⟩
    rw [find?_of_head? hlog] at hlog'
    rw [Option.some.inj hlog']
  exact .ask hlock (.ask hload h)

/-- A share is mounted and a unit is enabled and started, although the first try to start it
fails. Undone, the unit is disabled and does not run, and the share is unmounted. -/
theorem rollback_reverses_served : ∃ report t u log log' back,
    ((⟨default, .immediate 2⟩ : Orchestrator).run served []).run.Reaches
      (Stage.setting fun _ c => c.goesForward = true)
      ⟨webHost [⟨.start, "web.service", .unreachable, 1⟩], []⟩ (.done (.ok report)) t ∧
    report.status = .completed ∧ t.host.table.entries ≠ [] ∧
    t.host.manager.shows "web.service" .active = true ∧
    ((⟨default, .immediate 1⟩ : Orchestrator).rollbackRun (some report.runId)).run.Reaches Stage.sound t
      (.done (.ok (.ofLog log' true))) u ∧
    t.saved.head? = some log ∧ (log.entries.filterMap LogEntry.made?).length = 2 ∧
    log'.entries = log.entries ++ back ∧ Reverts (log.entries.filterMap LogEntry.made?).reverse back ∧
    log'.status = .aborted .operator ∧ u.host.table.entries = [] ∧
    u.host.manager.shows "web.service" .active = false := by
  obtain ⟨report, t, log, report', u, hwalk, hlog, hid, hstatus, hmounted, hon, hmade, hback⟩ :
      ∃ report t log report' u,
      ((⟨default, .immediate 2⟩ : Orchestrator).run served []).run.walk Stage.play
        (Stage.admits fun _ c => c.goesForward) 60
        ⟨webHost [⟨.start, "web.service", .unreachable, 1⟩], []⟩ = some (.done (.ok report), t) ∧
      t.saved.head? = some log ∧ log.runId = report.runId ∧ report.status = .completed ∧
      t.host.table.entries ≠ [] ∧ t.host.manager.shows "web.service" .active = true ∧
      (log.entries.filterMap LogEntry.made?).length = 2 ∧
      ((⟨default, .immediate 1⟩ : Orchestrator).rollbackLoaded log).walk Stage.play
        (Stage.admits fun _ _ => false) 60 t = some (.done (.ok report'), u) :=
    ⟨_, _, _, _, _, rfl, rfl, rfl, rfl, by decide, by decide, rfl, rfl⟩
  have hrun := Reaches.of_walk Stage.setting_play hwalk
  have hdone := hid ▸ reaches_rollbackRun hlog (Reaches.of_walk Stage.sound_play hback)
  obtain ⟨log₁, log', back, hlog₁, -, -, hreport, hentries, hreverts, hends, -, htable, hbits⟩ :=
    rollback_reverses built_served hrun hstatus hdone
  obtain rfl : log = log₁ := Option.some.inj (hlog.symm.trans hlog₁)
  rw [hreport] at hdone
  have hne : log.entries.filterMap LogEntry.made? ≠ [] := by
    intro hnil
    rw [hnil] at hmade
    cases hmade
  have hoff : (webHost [⟨.start, "web.service", .unreachable, 1⟩]).manager.shows "web.service" .active =
    false := by decide
  exact ⟨report, t, u, log, log', back, hrun, hstatus, hmounted, hon, hdone, hlog, hmade, hentries,
    hreverts, hends hne, htable, (hbits _ _).trans hoff⟩

/-- Both steps are skipped, so there is nothing to undo: the run stays completed. -/
theorem rollback_keeps_status : inTurn.Built ∧ ∃ report t report' u,
    ((⟨default, .immediate 2⟩ : Orchestrator).run inTurn ["a", "b"]).run.Reaches
      (Stage.setting fun _ c => c.goesForward = true) ⟨{}, []⟩ (.done (.ok report)) t ∧
    report.status = .completed ∧
    ((⟨default, .immediate 1⟩ : Orchestrator).rollbackRun (some report.runId)).run.Reaches Stage.sound t
      (.done (.ok report')) u ∧ report'.status = .completed := by
  refine ⟨built_inTurn, ?_⟩
  obtain ⟨report, t, log, report', u, hwalk, hlog, hid, hstatus, hback, hstatus'⟩ :
      ∃ report t log report' u,
      ((⟨default, .immediate 2⟩ : Orchestrator).run inTurn ["a", "b"]).run.walk Stage.play
        (Stage.admits fun _ c => c.goesForward) 60 ⟨{}, []⟩ = some (.done (.ok report), t) ∧
      t.saved.head? = some log ∧ log.runId = report.runId ∧ report.status = .completed ∧
      ((⟨default, .immediate 1⟩ : Orchestrator).rollbackLoaded log).walk Stage.play
        (Stage.admits fun _ _ => false) 60 t = some (.done (.ok report'), u) ∧
      report'.status = .completed :=
    ⟨_, _, _, _, _, rfl, rfl, rfl, rfl, rfl, rfl⟩
  exact ⟨report, t, report', u, Reaches.of_walk Stage.setting_play hwalk, hstatus,
    hid ▸ reaches_rollbackRun hlog (Reaches.of_walk Stage.sound_play hback), hstatus'⟩

end Provision.Orchestrator
