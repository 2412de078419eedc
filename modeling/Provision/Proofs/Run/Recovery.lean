import Provision.Proofs.Run.Residue

/-!
# Recovery

A run that was stopped at any point is rolled back from the log on disk.

* `ensures_rollbackRun`: rolling back undoes what the log says is left over, one change
  after the other.
* `ensures_reverted`: the log has one entry for each, last one first.
* `rollback_recovers`: **what a run had changed when it was stopped is as it was before the
  run**, once the run has been rolled back.
-/

namespace Provision.Orchestrator

open Script Mount

variable {o o' : Orchestrator} {registry : Registry} {skip : List String} {host : Mock.Host}
  {log : RunLog} {s t u : Stage}

/-- Undoing one change of those that are left over succeeds and keeps what they track. -/
def Undoes (o : Orchestrator) (tracks : List Made → Mock.Host → Prop) : Prop :=
  ∀ (front : List Made) (m : Made) (s : Stage), tracks (front ++ [m]) s.host → m.Fits →
    (o.undo m).Ensures Stage.sound (fun _ => True) (fun r t => r = .rolledBack ∧ tracks front t.host) s

/-- A report that says that all was undone, and what the changes tracked once none is left. -/
def Recovered (tracks : List Made → Mock.Host → Prop) (report : RunReport) (s : Stage) : Prop :=
  report.rollbackClean = true ∧ tracks [] s.host

/-- A ledger tells how to undo. -/
theorem undoes_of_ledger {concerns : Made → Prop} {tracks covers : List Made → Mock.Host → Prop}
    (L : Ledger o Stage.sound False concerns tracks covers) : o.Undoes tracks := by
  intro front m s h hfits
  refine ((L.undo h hfits).and (L.clean (fun hf => hf) hfits)).mono (fun _ _ _ _ _ hx => hx)
    (fun _ _ => trivial) ?_
  rintro r t - ⟨⟨hback, -⟩, hr⟩
  exact ⟨hr, hback hr⟩

/-- One entry for each change says that it was undone. -/
def Reverts (undone : List Made) (back : List LogEntry) : Prop :=
  back.map (fun e => (e.step, e.result, e.action)) = undone.map fun m => (m.step, .rolledBack, m.action)

theorem Reverts.concat {undone : List Made} {back : List LogEntry} (h : Reverts undone back) (m : Made)
    (now : String) : Reverts (undone ++ [m]) (back ++ [⟨m.step, .rolledBack, m.action, now⟩]) := by
  unfold Reverts
  rw [List.map_append, List.map_append, h]
  rfl

/-- What the log on disk and the report say once all that `log` says is left over was undone, last
one first. A log of which nothing is left over stays as it is. -/
def Reverted (log : RunLog) (report : RunReport) (s : Stage) : Prop :=
  ∃ log' back, s.saved.head? = some log' ∧ report = .ofLog log' true ∧
    log'.entries = log.entries ++ back ∧ Reverts (leftover log).reverse back ∧
    (leftover log = [] → log' = log) ∧ (leftover log ≠ [] → log'.status = rolledBackStatus log.status)

theorem ensures_rollbackLog_sound {tracks : List Made → Mock.Host → Prop} (hundo : o.Undoes tracks)
    (hlog : s.saved.head? = some log) (hfits : ∀ m ∈ leftover log, m.Fits)
    (h : tracks (leftover log) s.host) :
    (o.rollbackLog log).run.Ensures Stage.sound (fun _ => True)
      (onResult (fun report t => Recovered tracks report t ∧ Reverted log report t) fun _ _ => False) s := by
  refine ensures_rollbackLog Stage.lawful_sound.quiet trivial (fun hnothing => ⟨⟨rfl, hnothing ▸ h⟩, ?_⟩)
    fun hleft => ?_
  · refine ⟨log, [], hlog, rfl, (List.append_nil _).symm, ?_, fun _ => rfl, absurd hnothing⟩
    rw [hnothing]
    rfl
  -- what is still to be undone is tracked, and all so far was undone
  let inv (todo : List Made) (log' : RunLog) (clean : Bool) (s : Stage) : Prop :=
    clean = true ∧ tracks todo.reverse s.host ∧ (∀ m ∈ todo, m.Fits) ∧ ∃ undone back,
      (leftover log).reverse = undone ++ todo ∧ log'.entries = log.entries ++ back ∧ Reverts undone back
  have hstart : inv (leftover log).reverse log true s := by
    refine ⟨rfl, ?_, fun m hm => hfits m (List.mem_reverse.1 hm), [], [], rfl, (List.append_nil _).symm, rfl⟩
    rw [List.reverse_reverse]
    exact h
  have hall : (o.unwindAll log (leftover log).reverse).run.Ensures Stage.sound (fun _ => True)
      (onResult (fun r s => inv [] r.1 r.2 s) fun _ _ => False) s := by
    refine ensures_unwindAll Stage.lawful_sound.quiet (fun _ _ _ _ _ => trivial) ?_ hstart
    rintro m todo log' clean s ⟨rfl, htracks, hall, undone, back, htodo, hentries, hback⟩
    rw [List.reverse_cons] at htracks
    refine (hundo _ m s htracks (hall m List.mem_cons_self)).imp ?_
    rintro r t - ⟨rfl, htracks⟩ now
    refine Stage.saving_sound ⟨trivial, rfl, htracks, fun m' hm' => hall m' (List.mem_cons_of_mem _ hm'),
      undone ++ [m], _, ?_, ?_, hback.concat m now⟩
    · rw [htodo, List.append_assoc, List.singleton_append]
    · rw [RunLog.push, hentries, List.append_assoc]
  refine hall.imp ?_
  rintro (e | ⟨log', clean⟩) t - hr
  · exact hr
  · obtain ⟨rfl, htracks, -, undone, back, htodo, hentries, hback⟩ := hr
    rw [List.append_nil] at htodo
    exact fun now => Stage.saving_sound ⟨trivial, ⟨rfl, htracks⟩, _, back, rfl, rfl, hentries,
      htodo ▸ hback, fun hnothing => absurd hnothing hleft, fun _ => rfl⟩

/-- The log that was put on disk last is the one that is found by its name. -/
theorem find?_of_head? {saved : List RunLog} (h : saved.head? = some log) :
    saved.find? (·.runId = log.runId) = some log := by
  obtain ⟨rest, rfl⟩ := List.head?_eq_some_iff.1 h
  rw [List.find?_cons]
  simp

/-- **Rolling back the run that was logged last** undoes what its log says is left over, and says
so. -/
theorem ensures_reverted {tracks : List Made → Mock.Host → Prop} (hundo : o.Undoes tracks)
    (hlog : s.saved.head? = some log) (hfits : ∀ m ∈ leftover log, m.Fits)
    (h : tracks (leftover log) s.host) :
    (o.rollbackRun (some log.runId)).run.Ensures Stage.sound (fun _ => True)
      (onResult (fun report t => Recovered tracks report t ∧ Reverted log report t) fun _ _ => False) s := by
  have hlock : ∀ (x : Except IoError Bool) t, Stage.sound s .lock x t → x = .ok true := fun _ _ hx => hx.2
  have hloads : ∀ x, Loads Stage.sound s (some log.runId) x → x = .ok log := fun _ hx =>
    hx.2 log (find?_of_head? hlog)
  exact ensures_rollback_free Stage.lawful_sound.quiet trivial hlock hloads
    (ensures_rollbackLog_sound hundo hlog hfits h)

/-- What was changed is as it was before, once all that is left over was undone. -/
theorem ensures_rollbackRun {tracks : List Made → Mock.Host → Prop} (hundo : o.Undoes tracks)
    (hlog : s.saved.head? = some log) (hfits : ∀ m ∈ leftover log, m.Fits)
    (h : tracks (leftover log) s.host) :
    (o.rollbackRun (some log.runId)).run.Ensures Stage.sound (fun _ => True)
      (onResult (Recovered tracks) fun _ _ => False) s := by
  refine (ensures_reverted hundo hlog hfits h).imp ?_
  rintro (e | report) t - hr
  · exact hr
  · exact hr.1

/-- **What a run had changed when it was stopped is as it was before the run** once the run
has been rolled back, if nothing had failed by then that takes something back, and no call
fails any more. Rolling back succeeds then. -/
theorem rollback_recovers (hb : registry.Built) {p : Effects (Except RunError RunReport)}
    (hstop : (o.run registry skip).run.Reaches (Stage.setting fun _ c => c.goesForward = true)
      ⟨host, []⟩ p t) (hlog : t.saved.head? = some log) {r : Except RunError RunReport}
    (hdone : (o'.rollbackRun (some log.runId)).run.Reaches Stage.sound t (.done r) u) :
    ∃ report, r = .ok report ∧ report.rollbackClean = true ∧
      (∀ target, stack target t.host.table.entries ≠ stack target host.table.entries →
        stack target u.host.table.entries = stack target host.table.entries) ∧
      ∀ unit b, t.host.manager.shows unit b ≠ host.manager.shows unit b →
        u.host.manager.shows unit b = host.manager.shows unit b := by
  have hback : ∀ c : HostCall, c.goesForward = false →
      Stage.Succeeds (Stage.setting fun _ c => c.goesForward = true) c := fun _ => Stage.succeeds_of_forward
  have hsound : ∀ c : HostCall, c.goesForward = false → Stage.Succeeds Stage.sound c :=
    fun _ _ => Stage.succeeds_sound
  -- what the log on disk says, of a single target and of a single switch
  have htarget : ∀ target, (∀ m ∈ leftover log, m.Fits) ∧
      (stack target t.host.table.entries = stack target host.table.entries ∨
        TakesDown target (stack target host.table.entries) (leftover log) t.host.table.entries) :=
    fun target => (((targetLedger_of_forward Stage.lawful_setting hback).ensures_run
      (takesDown_nil target _) rfl).sound hstop).now id hb log hlog
  have hswitch : ∀ unit b, t.host.manager.shows unit b = host.manager.shows unit b ∨
      TakesBack unit b (host.manager.shows unit b) (leftover log) t.host := fun unit b =>
    ((((unitLedger_of_forward Stage.lawful_setting hback).ensures_run rfl rfl).sound hstop).now id
      hb log hlog).2
  have hfits := (htarget ⟨"/"⟩).1
  have hrolled : ∀ tracks : List Made → Mock.Host → Prop, o'.Undoes tracks → tracks (leftover log) t.host →
      ∃ report, r = .ok report ∧ Recovered tracks report u := by
    intro tracks hundoes htracks
    obtain ⟨-, hr⟩ := (ensures_rollbackRun hundoes hlog hfits htracks).sound hdone
    cases r with
    | error e => exact hr.elim
    | ok report => exact ⟨report, rfl, hr⟩
  -- rolling back is clean whatever the changes track
  have hclean : o'.Undoes fun _ _ => True := fun _ _ _ _ hfits =>
    (Ledger.ensures_undo_clean hsound hfits).imp fun _ _ _ hr => ⟨hr, trivial⟩
  obtain ⟨report, rfl, hrep, -⟩ := hrolled (fun _ _ => True) hclean trivial
  refine ⟨report, rfl, hrep, fun target hdiff => ?_, fun unit b hdiff => ?_⟩
  · obtain ⟨-, -, -, hdown⟩ := hrolled
      (fun made h => TakesDown target (stack target host.table.entries) made h.table.entries)
      (undoes_of_ledger (targetLedger_of_forward Stage.lawful_sound hsound)) ((htarget target).2.resolve_left hdiff)
    exact hdown.stack_eq
  · obtain ⟨-, -, -, hback⟩ := hrolled (TakesBack unit b (host.manager.shows unit b))
      (undoes_of_ledger (unitLedger_of_forward Stage.lawful_sound hsound)) ((hswitch unit b).resolve_left hdiff)
    exact hback

/-- The run is stopped when the unit has been enabled and is to be started. Rolling it back
disables the unit and unmounts the share. -/
theorem rollback_recovers_inFlight : ∃ p t log report u,
    ((⟨default, .immediate 2⟩ : Orchestrator).run served []).run.Reaches
      (Stage.setting fun _ c => c.goesForward = true) ⟨webHost [], []⟩ p t ∧
    t.saved.head? = some log ∧ log.inFlight.isSome ∧
    ((⟨default, .immediate 1⟩ : Orchestrator).rollbackRun (some log.runId)).run.Reaches Stage.sound t
      (.done (.ok report)) u ∧
    t.host.manager.shows "web.service" .enabled = true ∧
    report.rollbackClean = true ∧ u.host.manager.shows "web.service" .enabled = false := by
  have hb : served.Built :=
    Registry.built_ofPlanFile (show Registry.ofPlanFile ⟨1, none, served.steps⟩ = .ok served from rfl)
  -- what is asked once the lock has been taken and the log has been loaded
  let rest (log : RunLog) : Effects (Except RunError RunReport) := ExceptT.run do
    let result ← ExceptT.lift ((⟨default, .immediate 1⟩ : Orchestrator).rollbackLog log).run
    Script.request (I := Effect.interface) .unlock
    ExceptT.mk (.done result)
  obtain ⟨p, t, log, report, u, hwalk, hlog, hflight, hon, hback⟩ : ∃ p t log report u,
      ((⟨default, .immediate 2⟩ : Orchestrator).run served []).run.walk Stage.play
        (Stage.admits fun _ c => c.goesForward) 21 ⟨webHost [], []⟩ = some (p, t) ∧
      t.saved.head? = some log ∧ log.inFlight.isSome ∧
      t.host.manager.shows "web.service" .enabled = true ∧
      (rest log).walk Stage.play (Stage.admits fun _ _ => false) 60 t = some (.done (.ok report), u) :=
    ⟨_, _, _, _, _, rfl, rfl, rfl, by decide, rfl⟩
  have hstop := Reaches.of_walk Stage.setting_play hwalk
  have hlock : Stage.sound t .lock (.ok true) t := ⟨rfl, rfl⟩
  have hload : Stage.sound t (.load log.runId) (.ok log) t := by
    refine ⟨rfl, fun log' hlog' => ?_⟩
    rw [find?_of_head? hlog] at hlog'
    rw [Option.some.inj hlog']
  have hdone : ((⟨default, .immediate 1⟩ : Orchestrator).rollbackRun (some log.runId)).run.Reaches
      Stage.sound t (.done (.ok report)) u :=
    .ask hlock (.ask hload (Reaches.of_walk Stage.sound_play hback))
  have hoff : (webHost []).manager.shows "web.service" .enabled = false := by decide
  obtain ⟨report', hreport, hclean, -, hbits⟩ := rollback_recovers hb hstop hlog hdone
  obtain rfl : report = report' := Except.ok.inj hreport
  refine ⟨p, t, log, report, u, hstop, hlog, hflight, hdone, hon, hclean, ?_⟩
  rw [hbits "web.service" .enabled (by rw [hon, hoff]; decide), hoff]

end Provision.Orchestrator
