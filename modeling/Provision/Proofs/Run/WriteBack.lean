import Provision.Proofs.Action.Requests
import Provision.Proofs.Run.Account
import Provision.Proofs.Run.Rules
import Provision.Proofs.Store.Serving

/-!
# Where a rollback writes

A rollback loads a run log from a file, and saves what becomes of it under the name that the log
gives its run.

* `only_rollbackLog`, `ensures_serving`: what a rollback does while it holds the lock.
* `ensures_rollbackLog_puts`: **one file is put in place, under the name of the run.**
* `rollback_writes`: **but for the lock file, a rollback changes this file only**; it is the one that
  the log was loaded from if that is named after the run.
* `rollback_writes_elsewhere`: a file that is named after another run stays as it was.
-/

namespace Provision

open Script Store

/-- The requests of taking back what a log says is left to undo. -/
def Effect.unwinds : Effect → Prop
  | now | save _ => True
  | e => e.touchesHost = true

/-- The setting of a run that holds the lock of a state directory and has loaded a log. -/
def unwinding (layout : Layout) : Setting Effect.interface Files
  | fs, .save log, x, fs' => serving layout fs (.save log) x fs'
  | fs, _, _, fs' => fs' = fs

section

variable {layout : Layout} {fs fs' : Files} {e : Effect}

theorem quiet_unwinding (layout : Layout) : Quiet (unwinding layout) := by
  intro fs e x fs' he h
  cases e <;> first | exact h | cases he

theorem unwinding_of_serving {x : e.Reply} (he : e.unwinds) (h : serving layout fs e x fs') :
    unwinding layout fs e x fs' := by
  obtain ⟨_, m, m', rfl, hrun, rfl⟩ := id h
  cases e with
  | save log => exact h
  | host c | resolve paths | pause length | now =>
    obtain ⟨-, rfl⟩ := Prod.mk.inj hrun
    rfl
  | _ => cases he

/-- What is ensured of such a run is ensured of the files. -/
theorem ensures_serving {α : Type} {p : Effects α} {post : α → Files → Prop} (hp : p.Only Effect.unwinds)
    (h : p.Ensures (unwinding layout) (fun _ => True) post fs) :
    p.Ensures (serving layout) (fun _ => True) post fs := by
  have hall : p.Ensures (serving layout) (fun _ => True ∧ True) (fun a fs => post a (id fs)) fs :=
    h.comap (f := id) hp trivial fun fs e x fs' he _ hx => ⟨unwinding_of_serving he hx, trivial⟩
  exact hall.mono (fun _ _ _ _ _ hx => hx) (fun _ _ => trivial) fun _ _ _ hpost => hpost

end

namespace Orchestrator

variable {o : Orchestrator} {log log₀ : RunLog} {fs fs' held : Files} {dir : Place}

theorem only_undo (m : Made) : (o.undo m).Only (Effect.touchesHost ·) := by
  unfold Orchestrator.undo
  cases m.action with
  | none => trivial
  | some action =>
    have honly := StepAction.only_rollback o.retry action m.change
    refine (honly.mono fun _ => Effect.serves.touchesHost).bind fun r => ?_
    rcases r with e | _ <;> trivial

theorem only_persist (log : RunLog) : (persist log).run.Only Effect.unwinds :=
  Only.map (only_request trivial)

theorem only_unwindAll (todo : List Made) : ∀ log, (o.unwindAll log todo).run.Only Effect.unwinds := by
  induction todo with
  | nil => exact fun _ => trivial
  | cons m rest ih =>
    intro log
    unfold unwindAll
    have hundo : (o.undo m).Only Effect.unwinds := (only_undo m).mono fun e he => by
      cases e <;> first | exact he | trivial
    refine .bindE hundo.map fun result => ?_
    refine .bindE ⟨trivial, fun _ => trivial⟩ fun log => ?_
    exact .bindE (only_persist log) fun _ => .bindE (ih log) fun _ => trivial

theorem only_rollbackLog (log : RunLog) : (o.rollbackLog log).run.Only Effect.unwinds := by
  unfold rollbackLog
  by_cases hleft : leftover log = []
  · rw [if_pos hleft]
    trivial
  · rw [if_neg hleft]
    refine .bindE (only_unwindAll _ log) fun unwound => .bindE ?_ fun _ => trivial
    exact .bindE ⟨trivial, fun _ => trivial⟩ fun log => .bindE (only_persist log) fun _ => trivial

/-- What a rollback of a loaded log has done to the files: nothing if nothing was left to undo, and
otherwise a log was put under the name of the run. -/
structure WroteTo (o : Orchestrator) (held : Files) (log₀ log : RunLog) (fs : Files) : Prop where
  runId : log.runId = log₀.runId
  nothing : leftover log₀ = [] → log = log₀ ∧ fs = held
  put : leftover log₀ ≠ [] → ∃ place, Puts o.layout held log place fs ∧
    fs.node (o.layout.runPath log.runId) = .ok (place, .file log.render.toUTF8)

/-- While changes are undone no log was saved yet, or one is where the name of its run leads. -/
def Putting (o : Orchestrator) (held : Files) (log₀ : RunLog) (todo : List Made) (log : RunLog)
    (fs : Files) : Prop :=
  log.runId = log₀.runId ∧
    (fs = held ∧ todo = (leftover log₀).reverse ∨ ∃ place, Puts o.layout held log place fs)

section

variable (hdir : held.node o.layout.runsDir = .ok (dir, .dir))

include hdir

theorem ensures_unwindAll_puts (log₀ : RunLog) :
    (o.unwindAll log₀ (leftover log₀).reverse).run.Ensures (unwinding o.layout) (fun _ => True)
      (onResult (fun r fs => o.Putting held log₀ [] r.1 fs) fun _ _ => True) held := by
  let inv (todo : List Made) (log : RunLog) (_ : Bool) (fs : Files) : Prop :=
    o.Putting held log₀ todo log fs
  have hstart : inv (leftover log₀).reverse log₀ true held := ⟨rfl, .inl ⟨rfl, rfl⟩⟩
  refine ensures_unwindAll (quiet_unwinding o.layout) (fun _ _ _ _ _ => trivial) ?_ hstart
  rintro m rest log - fs ⟨hid, hfs⟩
  -- the host is called, and the files are left alone
  have hundo : (o.undo m).Ensures (unwinding o.layout) (· = fs) (fun _ _ => True) fs :=
    (only_undo m).ensures (fun fs₁ e x fs₂ he hfs₁ hx => by
      cases e <;> first | exact hx.trans hfs₁ | cases he) rfl
  refine hundo.mono (fun _ _ _ _ _ hx => hx) (fun _ _ => trivial) ?_
  rintro result fs₁ rfl - now x fs' hsave
  refine ⟨trivial, ?_⟩
  rcases x with e | _
  · trivial
  · refine ⟨hid, .inr ?_⟩
    rcases hfs with ⟨rfl, -⟩ | ⟨place, hputs⟩
    · exact puts_of_serving hdir hsave
    · have hnext : (log.push ⟨m.step, result, m.action, now⟩).runId = log.runId := rfl
      exact ⟨place, (hputs.save hdir hnext hsave).1⟩

/-- **Undoing what is left puts one file in place**, however often the log is saved. -/
theorem ensures_rollbackLog_puts (log₀ : RunLog) :
    (o.rollbackLog log₀).run.Ensures (serving o.layout) (fun _ => True) (onResult (fun report fs =>
      ∃ log clean, report = .ofLog log clean ∧ WroteTo o held log₀ log fs) fun _ _ => True) held := by
  refine ensures_serving (only_rollbackLog log₀) ?_
  refine ensures_rollbackLog (quiet_unwinding o.layout) trivial (fun hnone => ?_) fun hsome => ?_
  · exact ⟨log₀, true, rfl, rfl, fun _ => ⟨rfl, rfl⟩, fun hne => absurd hnone hne⟩
  · refine (ensures_unwindAll_puts hdir log₀).imp ?_
    rintro (e | ⟨log, clean⟩) fs - hr
    · trivial
    · obtain ⟨hid, hfs⟩ := hr
      obtain ⟨place, hputs⟩ :=
        hfs.resolve_left fun h => hsome (List.reverse_eq_nil_iff.1 h.2.symm)
      intro now x fs' hsave
      refine ⟨trivial, ?_⟩
      rcases x with e | _
      · trivial
      · exact ⟨_, clean, rfl, hid, fun hnone => absurd hnone hsome,
          fun _ => ⟨place, hputs.save hdir rfl hsave⟩⟩

end

/-- Which file the log of a run is in: the one that is named after it, or one of those listed. -/
def Named (layout : Layout) (fs : Files) : Option String → String → Prop
  | some id, name => RunId.isValid id = true ∧ name = id ++ ".json"
  | none, name => isLogName name = true ∧ ∃ names, fs.names layout.runsDir = .ok names ∧ name ∈ names

/-- A log is loaded from a file. -/
theorem ensures_loadLog_holds (layout : Layout) (id : Option String) (fs : Files) :
    (loadLog id).run.Ensures (serving layout) (fun _ => True) (onResult (fun log fs' => fs' = fs ∧
      ∃ name, Named layout fs id name ∧ Holds layout fs name log) fun _ _ => True) fs := by
  refine ensures_stored.2 ?_
  cases id with
  | some id =>
    refine (ensures_request fs).2 ⟨trivial, fun x fs' hx => ⟨trivial, ?_⟩⟩
    obtain ⟨rfl, rfl⟩ := serving_load hx
    cases hload : loadFrom fs' layout id with
    | error e => trivial
    | ok log =>
      obtain ⟨hvalid, hholds⟩ := loadFrom_eq_ok hload
      exact ⟨rfl, id ++ ".json", ⟨hvalid, rfl⟩, hholds⟩
  | none =>
    refine (ensures_request fs).2 ⟨trivial, fun x fs' hx => ⟨trivial, ?_⟩⟩
    obtain e | log := (x : Except StoreError RunLog)
    · trivial
    · obtain ⟨rfl, names, hnames, name, hname, hlog, hholds⟩ := serving_latest hx
      exact ⟨rfl, name, ⟨hlog, names, hnames, hname⟩, hholds⟩

/-- The directory that the file is in is there. -/
theorem Named.exists_dir {layout : Layout} {id : Option String} {name : String}
    (hnamed : Named layout fs id name) (hholds : Holds layout fs name log) :
    ∃ dir, fs.node layout.runsDir = .ok (dir, .dir) := by
  cases id with
  | some id =>
    obtain ⟨hvalid, rfl⟩ := hnamed
    obtain ⟨text, hread, -⟩ := hholds
    obtain ⟨place, bytes, hnode⟩ := Files.node_of_readText hread
    have hname := RunId.isName hvalid
    have hfits := fits_of_join hname (Files.fits_of_lookup (Files.lookup_of_node hnode))
    exact Files.node_of_isDir (Files.isDir_of_join hname hfits (runsDir_last layout) hnode)
  | none =>
    obtain ⟨-, names, hnames, -⟩ := hnamed
    exact Files.node_of_names hnames

/-- **The lock is taken first**, and what is done then starts with the files as they are while it is
held. -/
theorem ensures_locked_serving {α : Type} {act : Running α} {post : α → Files → Prop}
    (h : ∀ held lock, Locks o.layout fs held lock →
      act.run.Ensures (serving o.layout) (fun _ => True) (onResult post fun _ _ => True) held) :
    (o.locked act).run.Ensures (serving o.layout) (fun _ => True) (onResult post fun _ _ => True) fs := by
  refine ensures_bindE.2 (ensures_map.2 ((ensures_request fs).2 ⟨trivial, fun x held hx => ⟨trivial, ?_⟩⟩))
  obtain e | _ | _ := (x : Except IoError Bool)
  · trivial
  · exact ⟨trivial, trivial⟩
  · obtain ⟨lock, hlock⟩ := serving_lock hx
    refine ensures_bindE.2 (ensures_liftE.2 ((h held lock hlock).imp fun r fs _ hr => ?_))
    refine ensures_bindE.2 (ensures_liftE.2 ⟨trivial, fun x fs' hx => ⟨trivial, trivial, ?_⟩⟩)
    rw [serving_unlock hx]
    exact hr

/-- What a rollback has written: what it read is in a file of the directory of run logs, and what it
wrote is told by `WroteTo`. -/
theorem ensures_rollbackRun_wrote (id : Option String) :
    (o.rollbackRun id).run.Ensures (serving o.layout) (fun _ => True) (onResult (fun report fs' =>
      ∃ held lock name log₀ log clean, Locks o.layout fs held lock ∧ Named o.layout held id name ∧
        Holds o.layout held name log₀ ∧ report = .ofLog log clean ∧ WroteTo o held log₀ log fs')
      fun _ _ => True) fs := by
  refine ensures_locked_serving fun held lock hlock => ?_
  refine ensures_bindE.2 ((ensures_loadLog_holds o.layout id held).imp ?_)
  rintro (e | log₀) fs' - hloaded
  · trivial
  · obtain ⟨rfl, name, hnamed, hholds⟩ := hloaded
    obtain ⟨dir, hdir⟩ := hnamed.exists_dir hholds
    refine (ensures_rollbackLog_puts hdir log₀).imp ?_
    rintro (e | report) fs'' - hr
    · trivial
    · obtain ⟨log, clean, hreport, hwrote⟩ := hr
      exact ⟨fs', lock, name, log₀, log, clean, hlock, hnamed, hholds, hreport, hwrote⟩

/-- **Where a rollback writes.** A log is loaded from a file of the directory of run logs while the lock
is held, and what is told is told of a log of the same run. If nothing is left to undo nothing is
written. Otherwise one file is put in place, where the name of the run leads; if this is the name of the
file, the log was written back, and nothing but the lock file and this file has changed. -/
theorem rollback_writes {id : Option String} {report : RunReport}
    (h : (o.rollbackRun id).run.Reaches (serving o.layout) fs (.done (.ok report)) fs') :
    ∃ held lock dir name log₀ log clean,
      Locks o.layout fs held lock ∧ held.node o.layout.runsDir = .ok (dir, .dir) ∧
      Named o.layout held id name ∧ Holds o.layout held name log₀ ∧
      report = .ofLog log clean ∧ log.runId = log₀.runId ∧
      (leftover log₀ = [] → log = log₀ ∧ fs' = held) ∧
      (leftover log₀ ≠ [] → ∃ place, fs' = held.set place (.file log.render.toUTF8) ∧
        fs'.node (o.layout.runPath log₀.runId) = .ok (place, .file log.render.toUTF8)) ∧
      (leftover log₀ = [] ∨ name = log₀.runId ++ ".json" →
        Holds o.layout fs' name log ∧ (Path.IsName name → Files.Changed [dir ++ [name]] held fs' ∧
          (fs.isDir o.layout.root = true → Files.Changed [lock, dir ++ [name]] fs fs'))) := by
  obtain ⟨-, held, lock, name, log₀, log, clean, hlock, hnamed, hholds, hreport, hid, hnothing, hput⟩ :=
    (ensures_rollbackRun_wrote id).sound h
  obtain ⟨dir, hdir⟩ := hnamed.exists_dir hholds
  refine ⟨held, lock, dir, name, log₀, log, clean, hlock, hdir, hnamed, hholds, hreport, hid, hnothing,
    fun hsome => ?_, fun hback => ?_⟩
  · obtain ⟨place, hputs, hnode⟩ := hput hsome
    exact ⟨place, hputs.files, hid ▸ hnode⟩
  · -- the lock file comes to what has changed while the lock was held
    suffices hheld : Holds o.layout fs' name log ∧
        (Path.IsName name → Files.Changed [dir ++ [name]] held fs') from
      ⟨hheld.1, fun hname => ⟨hheld.2 hname, fun hroot => (hlock.changed hroot).trans (hheld.2 hname)⟩⟩
    by_cases hnone : leftover log₀ = []
    · obtain ⟨rfl, rfl⟩ := hnothing hnone
      exact ⟨hholds, fun _ => .refl _ _⟩
    · obtain rfl := hback.resolve_left hnone
      obtain ⟨place, ⟨⟨spot, hlookup, hat⟩, hfiles⟩, hnode⟩ := hput hnone
      rw [hid] at hlookup hnode
      refine ⟨⟨log.render, Files.readText_of_node hnode, RunLog.parse_render log⟩, fun hname => ?_⟩
      -- the name of the run leads to the file in the directory
      have hleads := Files.leads_of_node hdir (runsDir_last o.layout)
      have hself := Files.lookup_join_self (runsDir_ne_empty o.layout) hname
        (Files.fits_of_lookup hlookup) hleads
      obtain rfl := Except.ok.inj (hself.symm.trans hlookup)
      rw [hat.eq, hfiles]
      exact Files.changed_set held place _

/-- The log of a run that was completed, and found its unit as it was to be. -/
def foundLog (id : String) : RunLog where
  runId := id
  startedAt := "2026-01-02T03:04:05.678+00:00"
  status := .completed
  plan := ["web"]
  entries := [⟨"web", .applied (.service []), some (.service { name := "web" }),
    "2026-01-02T03:04:06+00:00"⟩]

/-- A state directory with the log of one run, in a file that is named after a run. -/
def filed (name id : String) : Files where
  nodes := [(["s"], .dir), (["s", "run.lock"], .file .empty), (["s", "runs"], .dir),
    (["s", "runs", name ++ ".json"], .file (foundLog id).render.toUTF8)]

section

variable {name id : String}

theorem get?_filed_entry (entry : String) : (filed name id).get? ["s", "runs", entry] =
    if entry = name ++ ".json" then some (.file (foundLog id).render.toUTF8) else none := by
  by_cases h : entry = name ++ ".json"
  · subst h
    simp [Files.get?, filed, List.lookup_cons]
  · have hne : (entry == name ++ ".json") = false := by simpa using h
    simp [Files.get?, filed, List.lookup_cons, h, hne]

theorem ready_filed (name id : String) : Store.Ready ⟨⟨"/s"⟩⟩ (filed name id) (filed name id) ["s", "runs"] := by
  have hfits : Files.Fits (Path.join ⟨"/s"⟩ "runs") := ⟨by decide, by decide, by decide⟩
  refine .of_node (Files.node_join (by decide) isName_runs hfits (leads_state rfl) fun target h => by cases h)
    (fun id' node _ hget => ?_) fun id' hvalid => fits_runPath hfits (by decide) hvalid
  rw [List.cons_append, List.cons_append, List.nil_append, get?_filed_entry] at hget
  split at hget
  · exact ⟨_, (Option.some.inj hget).symm⟩
  · cases hget

theorem node_filed : (filed name id).node ⟨"/s"⟩ = .ok (["s"], .dir) :=
  Files.node_eq_dir.2 ⟨⟨by decide, by decide, by decide⟩, (leads_state rfl).taken⟩

theorem serving_lock_filed : serving ⟨⟨"/s"⟩⟩ (filed name id) .lock (.ok true) (filed name id) := by
  have hlock : (filed name id).lookup true (Path.join ⟨"/s"⟩ "run.lock") =
      .ok (.taken ["s", "run.lock"] (.file .empty)) :=
    Files.lookup_join (by decide) Path.isName_lock ⟨by decide, by decide, by decide⟩ (leads_state rfl)
      (fun target h => by cases h) true
  have htouch : (filed name id).touch (Path.join ⟨"/s"⟩ "run.lock") = .ok (filed name id) := by
    rw [Files.touch, hlock]
    rfl
  have hnode : (filed name id).node (Path.join ⟨"/s"⟩ "run.lock") =
      .ok (["s", "run.lock"], .file .empty) := by
    rw [Files.node, hlock]
    rfl
  have hmade : (filed name id).makeDirs (Files.bare ⟨"/s"⟩) = .ok (filed name id) :=
    Files.makeDirs_of_node node_filed (by decide) (by decide)
  exact serving_tryLock hmade htouch hnode

theorem loadFrom_filed (hname : RunId.isValid name = true) :
    loadFrom (filed name id) ⟨⟨"/s"⟩⟩ name = .ok (foundLog id) := by
  have hnode := (ready_filed name id).node_runPath hname
  rw [List.cons_append, List.cons_append, List.nil_append, get?_filed_entry, if_pos rfl] at hnode
  exact loadFrom_of_render hname hnode

/-- The log once the change was undone. -/
def undoneLog (id now : String) : RunLog :=
  (foundLog id).push ⟨"web", .rolledBack, some (.service { name := "web" }), now⟩

/-- The log of the run is rolled back, whatever its file is named. -/
theorem reaches_filed (o : Orchestrator) (hname : RunId.isValid name = true)
    (hid : RunId.isValid id = true) : ∃ log, log.runId = id ∧ log.status = .aborted .operator ∧
      (o.rollbackRun (some name)).run.Reaches (serving ⟨⟨"/s"⟩⟩) (filed name id)
        (.done (.ok (.ofLog log true)))
        ((filed name id).set ["s", "runs", id ++ ".json"] (.file log.render.toUTF8)) := by
  have hready := ready_filed name id
  have hload : serving ⟨⟨"/s"⟩⟩ (filed name id) (.load name) (.ok (foundLog id)) (filed name id) :=
    serving_of_run (e := .load name) (m := { files := filed name id })
      ((on_load _ _ _).trans (by rw [loadFrom_filed hname]))
  obtain ⟨t, hnow⟩ := serving_now ⟨⟨"/s"⟩⟩ (filed name id)
  have hsave := hready.serving_save (undoneLog id (Instant.rfc3339 t)) hid
  have hput := hready.put hid (undoneLog id (Instant.rfc3339 t)).render.toUTF8
  obtain ⟨u, hnow'⟩ := serving_now ⟨⟨"/s"⟩⟩
    ((filed name id).set ["s", "runs", id ++ ".json"] (.file (undoneLog id (Instant.rfc3339 t)).render.toUTF8))
  have hsave' := hput.serving_save
    (closing (undoneLog id (Instant.rfc3339 t)) (.aborted .operator) (Instant.rfc3339 u)) hid
  refine ⟨closing (undoneLog id (Instant.rfc3339 t)) (.aborted .operator) (Instant.rfc3339 u), rfl, rfl, ?_⟩
  rw [← Files.set_set _ _ (.file (undoneLog id (Instant.rfc3339 t)).render.toUTF8)]
  exact .ask serving_lock_filed (.ask hload (.ask hnow (.ask hsave
    (.ask hnow' (.ask hsave' (.ask (serving_unlocks _ _) (.here _ _)))))))

end

/-- The name of a run. -/
def firstRun : String := "20260101000000000-aaaaaaaa"

/-- The name of another run. -/
def otherRun : String := "20260202000000000-bbbbbbbb"

/-- The log of a run is written back to the file that is named after the run. -/
theorem rollback_writes_back : ∃ report fs',
    ((⟨⟨⟨"/s"⟩⟩, .immediate 1⟩ : Orchestrator).rollbackRun (some firstRun)).run.Reaches
      (serving ⟨⟨"/s"⟩⟩) (filed firstRun firstRun) (.done (.ok report)) fs' ∧
    report.status = .aborted .operator ∧
    ∃ lock dir log clean, report = .ofLog log clean ∧ Holds ⟨⟨"/s"⟩⟩ fs' (firstRun ++ ".json") log ∧
      Files.Changed [lock, dir ++ [firstRun ++ ".json"]] (filed firstRun firstRun) fs' := by
  have hvalid : RunId.isValid firstRun = true := by decide
  obtain ⟨last, hid, hstatus, hreach⟩ :=
    reaches_filed (⟨⟨⟨"/s"⟩⟩, .immediate 1⟩ : Orchestrator) hvalid hvalid
  refine ⟨_, _, hreach, hstatus, ?_⟩
  obtain ⟨held, lock, dir, name, log₀, log, clean, -, -, hnamed, -, hreport, hrun, -, -, hback⟩ :=
    rollback_writes (o := ⟨⟨⟨"/s"⟩⟩, .immediate 1⟩) hreach
  obtain rfl : name = firstRun ++ ".json" := hnamed.2
  -- the log is of the run that the file is named after
  have hsame : log₀.runId = firstRun := by
    rw [← hrun, ← hid]
    exact (congrArg RunReport.runId hreport).symm
  obtain ⟨hholds, hchanged⟩ := hback (.inr (by rw [hsame]))
  have hroot : (filed firstRun firstRun).isDir ⟨"/s"⟩ = true := by rw [Files.isDir, node_filed]
  exact ⟨lock, dir, log, clean, hreport, hholds, (hchanged (RunId.isName hvalid)).2 hroot⟩

/-- The log of a run in a file that is named after another run is not written back: that file stays
as it was, and the run gets another file. -/
theorem rollback_writes_elsewhere : ∃ report fs',
    ((⟨⟨⟨"/s"⟩⟩, .immediate 1⟩ : Orchestrator).rollbackRun (some firstRun)).run.Reaches
      (serving ⟨⟨"/s"⟩⟩) (filed firstRun otherRun) (.done (.ok report)) fs' ∧
    Holds ⟨⟨"/s"⟩⟩ (filed firstRun otherRun) (firstRun ++ ".json") (foundLog otherRun) ∧
    (∀ log clean, Holds ⟨⟨"/s"⟩⟩ fs' (firstRun ++ ".json") log → report ≠ .ofLog log clean) ∧
    (filed firstRun otherRun).get? ["s", "runs", otherRun ++ ".json"] = none ∧
    ∃ bytes, fs'.get? ["s", "runs", otherRun ++ ".json"] = some (.file bytes) := by
  have hvalid : RunId.isValid firstRun = true := by decide
  have hother : RunId.isValid otherRun = true := by decide
  have hne : firstRun ++ ".json" ≠ otherRun ++ ".json" := by decide
  obtain ⟨last, hid, hstatus, hreach⟩ :=
    reaches_filed (⟨⟨⟨"/s"⟩⟩, .immediate 1⟩ : Orchestrator) hvalid hother
  refine ⟨_, _, hreach, (loadFrom_eq_ok (loadFrom_filed hvalid)).2, ?_, ?_, _,
    Files.get?_set_self _ (by simp) _⟩
  · rintro log clean ⟨text, hread, hparse⟩ hreport
    have hput := (ready_filed firstRun otherRun).put hother last.render.toUTF8
    have hnode := hput.node_runPath hvalid
    simp only [List.cons_append, List.nil_append] at hnode
    rw [Files.get?_set_of_ne _ (by simpa using hne), get?_filed_entry, if_pos rfl] at hnode
    obtain rfl := Except.ok.inj ((Files.readText_of_node hnode).symm.trans hread)
    rw [RunLog.parse_render] at hparse
    rw [← Except.ok.inj hparse] at hreport
    have hcompleted := congrArg RunReport.status hreport
    cases hstatus.symm.trans hcompleted
  · rw [get?_filed_entry, if_neg hne.symm]

end Orchestrator

end Provision
