import Provision.Proofs.Backend
import Provision.Proofs.Files.Writing
import Provision.Proofs.Store
import Provision.Proofs.Store.Latest
import Provision.World

/-!
# What a run does to the files

The requests of a run are carried out on a machine, of which only its tree of files is looked at.

* `Does`: what requests to the operating system can do to a tree of files.
* `Store.serving`: a run that is served by a state directory.
* `World.reaches_perform`: so is one that is carried out in memory.
* `Store.Locks`, `serving_lock`: taking the lock makes the lock file.
* `Store.Holds`, `serving_load`, `serving_latest`: a log is loaded from a file.
* `serving_save`: a log is saved in a file.
-/

namespace Provision

open Script SystemCall

/-- What requests to the operating system can do to the files of a machine. -/
def Does {α : Type} (script : SystemCalls α) (fs : Files) (x : α) (fs' : Files) : Prop :=
  ∃ m m' : Machine, m.files = fs ∧ script.run Store.answers m = (x, m') ∧ m'.files = fs'

namespace Store

/-- A run that is served by a state directory. Calls to the host get any reply, and leave the files
alone. -/
def serving (layout : Layout) : Setting Effect.interface Files := fun fs e x fs' =>
  ∃ host : (c : HostCall) → c.Reply,
    Does (Effect.answer layout (fun c => .done (host c)) (fun script => script) e) fs x fs'

end Store

/-- What a world in memory does to its files. -/
theorem World.does_system {α : Type} (script : SystemCalls α) (w : World) :
    Does script w.machine.files (World.system script w).1 (World.system script w).2.machine.files :=
  ⟨w.machine, _, rfl, rfl, rfl⟩

theorem World.serving_answer (layout : Layout) (e : Effect) (w : World) :
    Store.serving layout w.machine.files e (World.answer layout e w).1
      (World.answer layout e w).2.machine.files := by
  refine ⟨fun c => (w.rehearsal.answer c).1, ?_⟩
  cases e with
  | host c => exact ⟨w.machine, w.machine, rfl, rfl, rfl⟩
  | cancelled => exact ⟨{ w.machine with interrupted := w.rehearsal.stopping }, _, rfl, rfl, rfl⟩
  | _ =>
    simp only [World.answer, Effect.answer]
    exact World.does_system _ w

/-- **A run that is carried out in memory** is served by the files there. -/
theorem World.reaches_perform {α : Type} (layout : Layout) (p : Effects α) (w : World) :
    p.Reaches (Store.serving layout) w.machine.files (.done (World.perform layout p w).1)
      (World.perform layout p w).2.machine.files := by
  induction p generalizing w with
  | done a => exact .here _ _
  | ask e k ih => exact .ask (World.serving_answer layout e w) (ih _ _)

theorem Path.isName_lock : IsName "run.lock" :=
  ⟨⟨by decide, by decide, by decide⟩, by decide, by decide, by decide⟩

/-- The lock file is in the state directory. -/
theorem Layout.lockFile_parent (layout : Layout) : layout.lockFile.parent? = some (Files.bare layout.root) := by
  by_cases hroot : layout.root.text = ""
  · obtain ⟨⟨text⟩⟩ := layout
    cases hroot
    decide
  · obtain ⟨-, -, -, habsolute⟩ := Path.toList_join hroot Path.isName_lock
    have hpieces := Path.pieces_join hroot Path.isName_lock
    rw [Layout.lockFile, Path.parent?, hpieces, habsolute, List.reverse_append, List.reverse_singleton,
      List.singleton_append, List.dropWhile_cons_of_neg (by decide)]
    simp only [List.reverse_reverse]
    rw [Files.bare]
    split <;> simp

namespace Store

variable {layout : Layout} {fs fs' : Files} {log : RunLog} {id name : String}

/-! ### Saving -/

/-- What is saved was put in a directory that is there, or was made. -/
theorem on_save_eq_ok {m m' : Machine} (h : on m (save layout log) = (.ok (), m')) :
    ∃ made, m.files.makeDirs layout.runsDir = .ok made ∧
      made.replace (layout.runPath log.runId) log.render.toUTF8 = .ok m'.files := by
  have hdir : on m (attempt (request (.makeDirectories layout.runsDir))) =
      ((m.change (m.files.makeDirs layout.runsDir)).1.mapError .io,
        (m.change (m.files.makeDirs layout.runsDir)).2) := rfl
  rw [save, on_bind, hdir] at h
  cases hmade : m.files.makeDirs layout.runsDir with
  | error e =>
    rw [hmade] at h
    cases h
  | ok made =>
    rw [hmade] at h
    change ((Machine.change _ (made.replace (layout.runPath log.runId) log.render.toUTF8)).1.mapError _,
      (Machine.change _ (made.replace (layout.runPath log.runId) log.render.toUTF8)).2) = _ at h
    cases hsaved : made.replace (layout.runPath log.runId) log.render.toUTF8 with
    | error e =>
      rw [hsaved] at h
      cases h
    | ok saved =>
      rw [hsaved] at h
      obtain ⟨-, rfl⟩ := Prod.mk.inj h
      exact ⟨made, rfl, hsaved⟩

theorem serving_save (h : serving layout fs (.save log) (.ok ()) fs') :
    ∃ made, fs.makeDirs layout.runsDir = .ok made ∧
      made.replace (layout.runPath log.runId) log.render.toUTF8 = .ok fs' := by
  obtain ⟨_, m, m', rfl, hrun, rfl⟩ := h
  exact on_save_eq_ok hrun

/-- A log was put where its name leads, in a tree that is otherwise as it was. -/
structure Puts (layout : Layout) (held : Files) (log : RunLog) (place : Place) (fs : Files) : Prop where
  leads : ∃ spot : Files.Spot, held.lookup false (layout.runPath log.runId) = .ok spot ∧ spot.At place
  files : fs = held.set place (.file log.render.toUTF8)

section

variable {held : Files} {dir place : Place} (hdir : held.node layout.runsDir = .ok (dir, .dir))

include hdir

/-- **A log that is saved is put where its name leads**, if the directory of run logs is there. -/
theorem puts_of_serving (h : serving layout held (.save log) (.ok ()) fs) :
    ∃ place, Puts layout held log place fs := by
  obtain ⟨made, hmade, hsaved⟩ := serving_save h
  rw [Files.makeDirs_of_node hdir (runsDir_last layout) (runsDir_pieces layout)] at hmade
  obtain rfl : held = made := Except.ok.inj hmade
  obtain ⟨spot, place, hlookup, hat, hfiles⟩ := Files.replace_eq_ok hsaved
  exact ⟨place, ⟨spot, hlookup, hat⟩, hfiles⟩

/-- **A log that goes on from one that was saved takes its place**, and its name leads there. -/
theorem Puts.save {next : RunLog} (h : Puts layout held log place fs) (hid : next.runId = log.runId)
    (hsave : serving layout fs (.save next) (.ok ()) fs') :
    Puts layout held next place fs' ∧
      fs'.node (layout.runPath next.runId) = .ok (place, .file next.render.toUTF8) := by
  obtain ⟨⟨spot, hlookup, hat⟩, rfl⟩ := h
  obtain ⟨made, hmade, hsaved⟩ := serving_save hsave
  have hleads := Files.leads_of_node hdir (runsDir_last layout)
  obtain rfl := Files.makeDirs_set hleads (runsDir_pieces layout)
    ((Files.walks_of_lookup hlookup).found hat).1 hmade
  obtain ⟨spot', place', hlookup', hat', hfiles⟩ := Files.replace_eq_ok hsaved
  rw [hid] at hlookup'
  -- the path leads to the log that was put there
  obtain rfl := Files.lookup_set hlookup hat hlookup'
  obtain rfl : place = place' := hat'.1
  refine ⟨⟨⟨spot, by rw [hid, hlookup], hat⟩, by rw [hfiles, Files.set_set]⟩, ?_⟩
  rw [hid, hfiles]
  exact Files.node_set hlookup'

end

/-! ### Loading -/

/-- A file of the directory of run logs holds a run log. -/
def Holds (layout : Layout) (fs : Files) (name : String) (log : RunLog) : Prop :=
  ∃ text, fs.readText (layout.runsDir.join name) = .ok text ∧ RunLog.parse text = .ok log

theorem holds_of_decode {text : String} (hread : fs.readText (layout.runsDir.join name) = .ok text)
    (h : decode text = .ok log) : Holds layout fs name log := by
  refine ⟨text, hread, ?_⟩
  unfold decode at h
  cases hparse : RunLog.parse text with
  | error e =>
    rw [hparse] at h
    cases h
  | ok log' =>
    rw [hparse] at h
    rw [Except.ok.inj h]

/-- What is loaded is in the file that the run is named after. -/
theorem loadFrom_eq_ok (h : loadFrom fs layout id = .ok log) :
    RunId.isValid id = true ∧ Holds layout fs (id ++ ".json") log := by
  unfold loadFrom at h
  split at h <;> [rename_i hvalid; cases h]
  split at h <;> [skip; cases h]
  refine ⟨hvalid, ?_⟩
  cases hread : fs.readText (layout.runPath id) with
  | error e => rw [hread] at h; cases h
  | ok text => rw [hread] at h; exact holds_of_decode hread h

theorem serving_load {x : Except StoreError RunLog} (h : serving layout fs (.load id) x fs') :
    fs' = fs ∧ x = loadFrom fs layout id := by
  obtain ⟨_, m, m', rfl, hrun, rfl⟩ := h
  obtain ⟨rfl, rfl⟩ := Prod.mk.inj ((on_load m layout id).symm.trans hrun)
  exact ⟨rfl, rfl⟩

/-- A script that only looks at files changes nothing. -/
theorem run_of_looks {α : Type} {p : SystemCalls α} (hp : p.Only SystemCall.Looks) (m : Machine) :
    p.run answers m = (p.under fun r => (answers r m).1, m) := by
  induction p with
  | done a => rfl
  | ask r k ih =>
    have hsame : (answers r m).2 = m := by
      cases r <;> first | rfl | exact hp.1.elim
    rw [run_ask, hsame, ih _ (hp.2 _)]
    rfl

/-- The names that are listed are those in the directory, in some order. -/
theorem mem_of_listed {m : Machine} {path : Path} {names : List String}
    (h : (answers (.listDirectory path) m).1 = (.ok names : Except IoError (List String))) :
    ∃ kept, m.files.names path = .ok kept ∧ ∀ name ∈ names, name ∈ kept := by
  have hlisted : m.listing <$> m.files.names path = .ok names := h
  cases hkept : m.files.names path with
  | error e =>
    rw [hkept] at hlisted
    cases hlisted
  | ok kept =>
    rw [hkept] at hlisted
    rw [← Except.ok.inj hlisted]
    exact ⟨kept, rfl, fun name hname => (m.listing_perm kept).mem_iff.1 hname⟩

/-- The most recent run is one that is listed, in whatever order that is. -/
theorem serving_latest (h : serving layout fs .latest (.ok log) fs') :
    fs' = fs ∧ ∃ names, fs.names layout.runsDir = .ok names ∧
      ∃ name ∈ names, isLogName name = true ∧ Holds layout fs name log := by
  obtain ⟨_, m, m', rfl, hrun, rfl⟩ := h
  obtain ⟨hfound, rfl⟩ := Prod.mk.inj ((run_of_looks (only_latest layout) m).symm.trans hrun)
  obtain ⟨names, name, hnames, hname, hlog, hread⟩ := mem_of_under_latest hfound
  obtain ⟨kept, hkept, hmem⟩ := mem_of_listed hnames
  exact ⟨rfl, kept, hkept, name, hmem name hname, hlog, readLog?_eq_some hread⟩

/-! ### Taking the lock -/

/-- The lock file is there, in a directory that is there: each of them was made if there was
nothing, and nothing else has changed. -/
structure Locks (layout : Layout) (fs held : Files) (lock : Place) : Prop where
  found : ∃ node, held.node layout.lockFile = .ok (lock, node)
  made : ∃ made, Files.Grown fs made ∧ (fs.isDir layout.root = true → made = fs) ∧
    (held = made ∨ made.get? lock = none ∧ held = made.set lock (.file .empty))

/-- Where the state directory is there, taking the lock changes the lock file only. -/
theorem Locks.changed {held : Files} {lock : Place} (h : Locks layout fs held lock)
    (hdir : fs.isDir layout.root = true) : Files.Changed [lock] fs held := by
  obtain ⟨-, made, -, hsame, hheld⟩ := h
  obtain rfl := hsame hdir
  rcases hheld with rfl | ⟨-, rfl⟩
  · exact .refl _ _
  · exact Files.changed_set made lock _

/-- A lock that was taken is one of a file that is there. -/
theorem tryLock_eq_ok {m m' : Machine} {path : Path} (h : m.tryLock path = (.ok true, m')) :
    m.files.touch path = .ok m'.files ∧ ∃ found, m'.files.node path = .ok found := by
  unfold Machine.tryLock at h
  cases htouch : m.files.touch path with
  | error e => rw [htouch] at h; cases h
  | ok touched =>
    rw [htouch] at h
    cases hnode : touched.node path with
    | error e => simp only [hnode] at h; cases h
    | ok found =>
      simp only [hnode] at h
      split at h
      · cases h
      · obtain ⟨-, rfl⟩ := Prod.mk.inj h
        exact ⟨rfl, found, hnode⟩

/-- The directory of the lock file is made first. -/
theorem run_tryLock (layout : Layout) (m : Machine) :
    (∀ e, m.files.makeDirs (Files.bare layout.root) = .error e →
      layout.tryLock.run answers m = (.error e, m)) ∧
    ∀ made, m.files.makeDirs (Files.bare layout.root) = .ok made →
      layout.tryLock.run answers m = ({ m with files := made } : Machine).tryLock layout.lockFile := by
  have hdir : (request (.makeDirectories (Files.bare layout.root))).run answers m =
      m.change (m.files.makeDirs (Files.bare layout.root)) := rfl
  unfold Layout.tryLock
  rw [Layout.lockFile_parent]
  refine ⟨fun e he => ?_, fun made hmade => ?_⟩ <;>
    refine (run_bind answers (request (.makeDirectories (Files.bare layout.root))) _ m).trans ?_
  · rw [hdir, he]
    rfl
  · rw [hdir, hmade]
    rfl

theorem serving_lock (h : serving layout fs .lock (.ok true) fs') : ∃ lock, Locks layout fs fs' lock := by
  obtain ⟨_, m, m', rfl, hrun, rfl⟩ := h
  cases hmade : m.files.makeDirs (Files.bare layout.root) with
  | error e =>
    have herror := ((run_tryLock layout m).1 e hmade).symm.trans hrun
    cases herror
  | ok made =>
    obtain ⟨htouch, found, hnode⟩ := tryLock_eq_ok (((run_tryLock layout m).2 made hmade).symm.trans hrun)
    exact ⟨found.1, ⟨found.2, hnode⟩, made, Files.makeDirs_grown hmade,
      fun hdir => Files.makeDirs_bare hdir hmade, Files.touch_eq_ok htouch hnode⟩

/-- Letting go of the lock leaves the files alone. -/
theorem unlock_files (m : Machine) (path : Path) : (m.unlock path).files = m.files := by
  unfold Machine.unlock
  split <;> rfl

theorem serving_unlock {x : Unit} (h : serving layout fs .unlock x fs') : fs' = fs := by
  obtain ⟨_, m, m', rfl, hrun, rfl⟩ := h
  obtain ⟨-, rfl⟩ := Prod.mk.inj hrun
  exact unlock_files m layout.lockFile

/-! ### Where all goes well -/

section

variable {made : Files} {dir : Place}

/-- What a machine answers to a request can be answered. -/
theorem serving_of_run {e : Effect} {x : e.Reply} {m m' : Machine}
    (h : (Effect.answer layout (fun c => .done (Mock.Host.answer c {}).1) (fun script => script) e).run answers m =
      (x, m')) : serving layout m.files e x m'.files := ⟨_, m, m', rfl, h, rfl⟩

theorem Ready.serving_save (h : Ready layout fs made dir) (log : RunLog)
    (hvalid : RunId.isValid log.runId = true) :
    serving layout fs (.save log) (.ok ())
      (made.set (dir ++ [log.runId ++ ".json"]) (.file log.render.toUTF8)) := by
  have hrun := Ready.on_save (m := { files := fs }) hvalid h
  exact serving_of_run (e := .save log) hrun

theorem serving_now (layout : Layout) (fs : Files) : ∃ t, serving layout fs .now t fs :=
  ⟨_, serving_of_run (m := { files := fs }) rfl⟩

theorem serving_tryLock {touched : Files} {lock : Place} {node : Node}
    (hmade : fs.makeDirs (Files.bare layout.root) = .ok made)
    (htouch : made.touch layout.lockFile = .ok touched)
    (hnode : touched.node layout.lockFile = .ok (lock, node)) :
    serving layout fs .lock (.ok true) touched := by
  have hlocked : ({ files := made } : Machine).tryLock layout.lockFile =
      (.ok true, { files := touched, locks := [lock] }) := by
    unfold Machine.tryLock
    simp only [htouch, hnode]
    rfl
  exact serving_of_run (e := .lock) (((run_tryLock layout { files := fs }).2 made hmade).trans hlocked)

theorem serving_unlocks (layout : Layout) (fs : Files) : serving layout fs .unlock () fs :=
  ⟨fun c => (Mock.Host.answer c {}).1, { files := fs }, _, rfl, rfl, unlock_files _ _⟩

end

end Store

end Provision
