import Provision.Mock.Host
import Provision.Proofs.Action.Results
import Provision.Proofs.Mock.Manager
import Provision.Proofs.Mount.Stack
import Provision.Proofs.Run.Rules
import Provision.Proofs.Units.Watch

/-!
# Runs on a host in memory

The host in memory answers the calls, but a call may fail before it arrives, and an
operation on a unit may lose its reply. Which calls may fail is left open.

* `Mock.Answers`: what may come of a call.
* `Stage`, `Stage.setting`: the host and the logs that a run has put on disk.
* `HostCall.goesForward`: the calls that neither take something back nor look at the
  mount table.
* `Stage.sound`: the setting in which nothing fails.
* `Stage.Lawful`: the settings that allow nothing but what can come of a request.
* `Stage.play`: the replies of such a world, for runs on fixed inputs.
* `ensures_of_view`: what is ensured of a part of the host is ensured on the host.
* `ensures_of_switch`, `ensures_of_table`, `ensures_of_willing`: so with one switch of a
  unit, with the mount table, and with the results.
-/

namespace Provision

open Script

/-- The calls that neither take something back nor look at the mount table. -/
def HostCall.goesForward : HostCall → Bool
  | mount _ | unitState _ | issue _ _ | reloadManager => true
  | find _ | unmount _ | undo _ _ => false

namespace Mock

/-- What may come of a call. -/
inductive Answers (may : Prop) : (c : HostCall) → Host → c.Reply → Host → Prop
  /-- The host answers. An error is an answer only if the call may fail. -/
  | answered {c : HostCall} {h h' : Host} {x : c.Reply} :
      Host.answer c h = (x, h') → (x.isOk = false → may) → Answers may c h x h'
  /-- The call fails before it arrives. -/
  | refused {c : HostCall} {h : Host} (e : HostError) : may → Answers may c h (.error e) h
  /-- An operation takes effect, but its reply is lost. -/
  | lost {op : UnitOp} {unit : String} {h : Host} {m : Manager} (reason : String) : may →
      h.manager.carryOut op unit = (.ok (), m) →
      Answers may (.issue op unit) h (.error (.unreachable reason)) { h with manager := m }
  /-- The inverse of an operation takes effect, but its reply is lost. -/
  | lostUndo {op : UnitOp} {unit : String} {h : Host} {m : Manager} (reason : String) : may →
      h.manager.carryOut op unit = (.ok (), m) →
      Answers may (.undo op unit) h (.error (.unreachable reason)) { h with manager := m }

variable {may : Prop} {c : HostCall} {h h' : Host} {x : c.Reply}

/-- What an operation on a unit comes to. -/
def Operated (may : Prop) (op : UnitOp) (name : String) (m m' : Manager) :
    Except HostError Unit → Prop
  | .ok _ => Manager.Moves op name m m'
  | .error e => may ∧ (Manager.Agrees m m' ∨ (e.isTransient = true ∧ Manager.Moves op name m m'))

theorem operated_issue {op : UnitOp} {name : String} {m m' : Manager} {r : Except HostError Unit}
    (h : m.issue op name = (r, m')) (hmay : r.isOk = false → may) : Operated may op name m m' r := by
  have hspec := Manager.issue_spec op name m
  rw [h] at hspec
  cases r with
  | ok _ => exact hspec
  | error e => exact ⟨hmay rfl, hspec⟩

/-- An operation comes to the same whether it is issued or takes another one back. -/
theorem Answers.operated (ha : Answers may c h x h') :
    match c, x with
    | .issue op name, r | .undo op name, r => Operated may op name h.manager h'.manager r
    | _, _ => True := by
  cases ha with
  | answered heq hmay =>
    cases c with
    | issue op name | undo op name =>
      show Operated may op name h.manager h'.manager x
      rw [← (Prod.mk.inj heq).2]
      exact operated_issue (Prod.ext (Prod.mk.inj heq).1 rfl) hmay
    | _ => trivial
  | refused e hmay =>
    cases c with
    | issue op name | undo op name => exact ⟨hmay, .inl fun _ _ => rfl⟩
    | _ => trivial
  | lost reason hmay hout | lostUndo reason hmay hout =>
    exact ⟨hmay, .inr ⟨rfl, Manager.moves_carryOut hout⟩⟩

theorem Answers.mono {may' : Prop} (ha : Answers may c h x h') (hmay : may → may') :
    Answers may' c h x h' := by
  cases ha with
  | answered heq hx => exact .answered heq fun hfailed => hmay (hx hfailed)
  | refused e hr => exact .refused e (hmay hr)
  | lost reason hl hout => exact .lost reason (hmay hl) hout
  | lostUndo reason hl hout => exact .lostUndo reason (hmay hl) hout

/-- A call that may not fail succeeds. -/
theorem Answers.isOk (ha : Answers may c h x h') (hmay : ¬may) : x.isOk = true := by
  cases ha with
  | answered heq hx =>
    cases hok : x.isOk with
    | true => rfl
    | false => exact absurd (hx hok) hmay
  | refused e h => exact absurd h hmay
  | lost reason h hout => exact absurd h hmay
  | lostUndo reason h hout => exact absurd h hmay

/-- What comes of a call is what is seen of one switch of a unit. Undoing an operation on
the unit has to take effect if that is to be `sure`. -/
theorem Answers.watched {unit : String} {b : Switch} {sure : Prop} (ha : Answers may c h x h')
    (hsure : sure → ∀ op, c = .undo op unit →
      h'.manager.shows unit b = op.put b (h.manager.shows unit b)) :
    Units.Watched unit b sure (h.manager.shows unit b) (.host c) x (h'.manager.shows unit b) := by
  cases c with
  | find target | mount spec | unmount target | reloadManager => cases ha with
    | answered heq hmay => rw [← (Prod.mk.inj heq).2]; rfl
    | refused e hmay => rfl
  | unitState name => cases ha with
    | answered heq hmay =>
      obtain ⟨rfl, rfl⟩ := Prod.mk.inj heq
      exact ⟨rfl, fun hname state hs => by rw [← Except.ok.inj hs, hname]; rfl⟩
    | refused e hmay => exact ⟨rfl, fun _ state hs => by cases hs⟩
  | issue op name =>
    have hop : Operated may op name h.manager h'.manager x := ha.operated
    cases (x : Except HostError Unit) with
    | ok _ => exact ⟨fun hname => hop.of_ne hname b, fun hname => hop.self hname b⟩
    | error e =>
      obtain ⟨-, hagrees | ⟨he, hmoves⟩⟩ := hop
      · exact ⟨fun _ => hagrees unit b, fun _ => .inl (hagrees unit b)⟩
      · exact ⟨fun hname => hmoves.of_ne hname b, fun hname => .inr ⟨he, hmoves.self hname b⟩⟩
  | undo op name =>
    have hop : Operated may op name h.manager h'.manager x := ha.operated
    cases (x : Except HostError Unit) with
    | ok _ => exact ⟨fun hname => hop.of_ne hname b, fun hname => .inl (hop.self hname b)⟩
    | error e =>
      obtain ⟨-, hagrees | ⟨-, hmoves⟩⟩ := hop
      -- an inverse that failed and did nothing is one that was not sure
      · refine ⟨fun _ => hagrees unit b, ?_⟩
        rintro rfl
        by_cases hs : sure
        · exact .inl (hsure hs op rfl)
        · exact .inr ⟨hagrees _ b, hs, rfl⟩
      · exact ⟨fun hname => hmoves.of_ne hname b, fun hname => .inl (hmoves.self hname b)⟩

theorem stands_mount (spec : MountSpec) (t : Table) :
    Mount.Stands t.entries (.host (.mount spec)) (t.mount spec).1 (t.mount spec).2.entries := by
  unfold Table.mount
  dsimp only
  split <;> rfl

theorem stands_unmount (target : Path) (t : Table) :
    Mount.Stands t.entries (.host (.unmount target)) (t.unmount target).1
      (t.unmount target).2.entries := by
  unfold Table.unmount
  dsimp only
  split
  · rfl
  · split
    · rename_i entries hdrop
      show (Table.dropFirst target t.entries.reverse).map List.reverse = _
      rw [hdrop]; rfl
    · rfl

/-- What comes of a call is what is seen of the mount table, if the table can always be
read. -/
theorem Answers.stands (ha : Answers may c h x h') (hfind : ∀ target, c = .find target → x.isOk = true) :
    Mount.Stands h.table.entries (.host c) x h'.table.entries := by
  cases c with
  | find target => cases ha with
    | answered heq hmay =>
      obtain ⟨rfl, rfl⟩ := Prod.mk.inj heq
      exact ⟨rfl, rfl⟩
    | refused e hmay => cases hfind target rfl
  | mount spec => cases ha with
    | answered heq hmay =>
      have hx : (h.table.mount spec).1 = x := congrArg Prod.fst heq
      have hh : { h with table := (h.table.mount spec).2 } = h' := congrArg Prod.snd heq
      rw [← hh, ← hx]
      exact stands_mount spec h.table
    | refused e hmay => rfl
  | unmount target => cases ha with
    | answered heq hmay =>
      have hx : (h.table.unmount target).1 = x := congrArg Prod.fst heq
      have hh : { h with table := (h.table.unmount target).2 } = h' := congrArg Prod.snd heq
      rw [← hh, ← hx]
      exact stands_unmount target h.table
    | refused e hmay => rfl
  | unitState name | reloadManager => cases ha with
    | answered heq hmay => rw [← (Prod.mk.inj heq).2]; rfl
    | refused e hmay => rfl
  | issue op name => cases ha with
    | answered heq hmay => rw [← (Prod.mk.inj heq).2]; rfl
    | refused e hmay => rfl
    | lost reason hmay hout => rfl
  | undo op name => cases ha with
    | answered heq hmay => rw [← (Prod.mk.inj heq).2]; rfl
    | refused e hmay => rfl
    | lostUndo reason hmay hout => rfl

end Mock

/-- A host in memory, and the logs that a run has put on disk, last one first. -/
structure Stage where
  host : Mock.Host
  saved : List RunLog := []

namespace Stage

/-- The stage with one more log on disk. -/
def save (s : Stage) (log : RunLog) : Stage := { s with saved := log :: s.saved }

/-- Whether the last log on disk has a step in flight. -/
def isInFlight (s : Stage) : Bool := s.saved.head?.any (·.inFlight.isSome)

/-- What may come of a request, if it is left open which calls may fail. A log whose
saving failed may be on disk all the same; everything else may get any reply. -/
def Follows (may : Stage → HostCall → Prop) (s : Stage) : (e : Effect) → e.Reply → Stage → Prop
  | .host c, x, s' => ∃ h, Mock.Answers (may s c) c s.host x h ∧ s' = { s with host := h }
  | .save log, .ok (), s' => s' = s.save log
  | .save log, .error _, s' => s' = s ∨ s' = s.save log
  | .resolve _, _, s' | .pause _, _, s' | .cancelled, _, s' | .now, _, s' | .process, _, s'
  | .lock, _, s' | .unlock, _, s' | .prepare, _, s' | .load _, _, s' | .latest, _, s' => s' = s

/-- The setting in which some calls may fail. -/
def setting (may : Stage → HostCall → Prop) : Setting Effect.interface Stage :=
  fun s e x s' => s.Follows may e x s'

/-- What the state directory does when nothing is wrong with it: the lock is free, logs
are saved, and the log of a run that was saved last is the one that is loaded. -/
def Stores (s : Stage) : (e : Effect) → e.Reply → Prop
  | .lock, x => x = .ok true
  | .save _, x => x.isOk = true
  | .load id, x => ∀ log, s.saved.find? (·.runId = id) = some log → x = .ok log
  | .host _, _ | .resolve _, _ | .pause _, _ | .cancelled, _ | .now, _ | .process, _ | .unlock, _
  | .prepare, _ | .latest, _ => True

/-- The setting in which no call fails and nothing is wrong with the state directory. -/
def sound : Setting Effect.interface Stage :=
  fun s e x s' => setting (fun _ _ => False) s e x s' ∧ s.Stores e x

variable {may : Stage → HostCall → Prop} {w : Setting Effect.interface Stage} {c : HostCall} {s : Stage}

/-- Nothing comes of a request in this setting that cannot come of it at all. -/
def Lawful (w : Setting Effect.interface Stage) : Prop :=
  ∀ s e x s', w s e x s' → setting (fun _ _ => True) s e x s'

/-- A call never fails in this setting. -/
def Succeeds (w : Setting Effect.interface Stage) (c : HostCall) : Prop :=
  ∀ s (x : c.Reply) s', w s (.host c) x s' → x.isOk = true

theorem lawful_setting : Lawful (setting may) := by
  intro s e x s' hx
  cases e with
  | host c =>
    obtain ⟨h, ha, hs'⟩ := hx
    exact ⟨h, ha.mono fun _ => trivial, hs'⟩
  | save log => cases x <;> exact hx
  | _ => exact hx

theorem lawful_sound : Lawful sound := fun s e x s' hx => lawful_setting s e x s' hx.1

theorem succeeds_setting (h : ∀ s, ¬may s c) : Succeeds (setting may) c := by
  rintro s x s' ⟨h', ha, -⟩
  exact ha.isOk (h s)

/-- Where only calls that go forward may fail, no other call fails. -/
theorem succeeds_of_forward (h : c.goesForward = false) :
    Succeeds (setting fun _ c => c.goesForward = true) c := succeeds_setting fun _ => by simp [h]

theorem succeeds_sound : Succeeds sound c := fun s x s' hx =>
  succeeds_setting (fun _ hf => hf) s x s' hx.1

theorem Lawful.quiet (hw : Lawful w) : Quiet w := by
  intro s e x s' he hx
  have hx := hw s e x s' hx
  cases e <;> first | exact hx | simp [Effect.isQuiet] at he

theorem Lawful.saving (hw : Lawful w) {always post : Stage → Prop} {log : RunLog} (hs : always s)
    (h : always (s.save log) ∧ post (s.save log)) :
    Saving w always (fun _ _ => True) post log s := by
  intro x s' hx
  have hx := hw s (.save log) x s' hx
  cases x with
  | ok _ =>
    obtain rfl : s' = s.save log := hx
    exact h
  | error e =>
    obtain rfl | rfl : s' = s ∨ s' = s.save log := hx
    · exact ⟨hs, trivial⟩
    · exact ⟨h.1, trivial⟩

theorem saving_sound {always post : Stage → Prop} {log : RunLog}
    (h : always (s.save log) ∧ post (s.save log)) :
    Saving sound always (fun _ _ => False) post log s := by
  intro x s' hx
  cases x with
  | ok _ =>
    obtain rfl : s' = s.save log := hx.1
    exact h
  | error e => cases hx.2

section View

variable {α : Type} {p : Effects α} {action : StepAction}

/-- A request of an action saves nothing. -/
theorem Lawful.saved_eq (hw : Lawful w) {e : Effect} {x : e.Reply} {s' : Stage}
    (he : e.serves action) (hx : w s e x s') : s'.saved = s.saved := by
  have hx := hw s e x s' hx
  cases e with
  | host c =>
    obtain ⟨h, -, rfl⟩ := hx
    rfl
  | resolve _ | pause _ =>
    obtain rfl : s' = s := hx
    rfl
  | _ => exact he.elim

/-- **What is ensured of a part of the host is ensured on the host**, if a call makes of that part
what it may make of it. The other requests of an action leave it as it is. -/
theorem Lawful.ensures_of_view {β : Type} (hw : Lawful w) (view : Mock.Host → β)
    {v : Setting Effect.interface β} {always : β → Prop} {post : α → β → Prop}
    (hp : p.Only (Effect.serves action))
    (hcall : ∀ t c x h', t.saved = s.saved → w t (.host c) x { t with host := h' } →
      Mock.Answers True c t.host x h' → v (view t.host) (.host c) x (view h'))
    (hresolve : ∀ y paths x, v y (.resolve paths) x y) (hpause : ∀ y length x, v y (.pause length) x y)
    (h : p.Ensures v always post (view s.host)) :
    p.Ensures w (fun t => t.saved = s.saved ∧ always (view t.host)) (fun a t => post a (view t.host)) s := by
  refine Ensures.comap h hp rfl fun t e x t' he ht hx => ⟨?_, (hw.saved_eq he hx).trans ht⟩
  cases e with
  | host c =>
    obtain ⟨h', ha, rfl⟩ := hw t _ x _ hx
    exact hcall t c x h' ht hx ha
  | resolve paths =>
    obtain rfl : t' = t := hw t _ x _ hx
    exact hresolve _ paths x
  | pause length =>
    obtain rfl : t' = t := hw t _ x _ hx
    exact hpause _ length x
  | _ => exact he.elim

/-- What takes an operation back takes effect if it succeeds. -/
theorem Lawful.shows_undo (hw : Lawful w) {op : UnitOp} {unit : String}
    {x : (HostCall.undo op unit).Reply} {t : Stage} (hx : w s (.host (.undo op unit)) x t)
    (hok : x.isOk = true) (b : Switch) :
    t.host.manager.shows unit b = op.put b (s.host.manager.shows unit b) := by
  obtain ⟨h', ha, rfl⟩ := hw s (.host (.undo op unit)) x t hx
  have hop : Mock.Operated True op unit s.host.manager h'.manager x := ha.operated
  cases (x : Except HostError Unit) with
  | ok _ => exact hop.self rfl b
  | error e => cases hok

/-- **What is ensured of a switch is ensured on the host**, if undoing what was done to the
unit is as sure as it is taken to be. -/
theorem Lawful.ensures_of_switch (hw : Lawful w) {unit : String} (b : Switch) (sure : Prop)
    {always : Bool → Prop} {post : α → Bool → Prop} (hp : p.Only (Effect.serves action))
    (hsure : sure → ∀ t op x t', t.saved = s.saved → w t (.host (.undo op unit)) x t' →
      t'.host.manager.shows unit b = op.put b (t.host.manager.shows unit b))
    (h : p.Ensures (Units.watching unit b sure) always post (s.host.manager.shows unit b)) :
    p.Ensures w (fun t => t.saved = s.saved ∧ always (t.host.manager.shows unit b))
      (fun a t => post a (t.host.manager.shows unit b)) s := by
  refine hw.ensures_of_view (fun host => host.manager.shows unit b) hp (fun t c x h' ht hx ha => ?_)
    (fun _ _ _ => rfl) (fun _ _ _ => rfl) h
  refine ha.watched fun hs op hop => ?_
  subst hop
  exact hsure hs t op x _ ht hx

/-- **What is ensured of the mount table is ensured on the host**, if the table can always
be read. -/
theorem Lawful.ensures_of_table (hw : Lawful w) {always : List MountEntry → Prop}
    {post : α → List MountEntry → Prop} (hp : p.Only (Effect.serves action))
    (hfind : ∀ target, Succeeds w (.find target))
    (h : p.Ensures Mount.standing always post s.host.table.entries) :
    p.Ensures w (fun t => t.saved = s.saved ∧ always t.host.table.entries)
      (fun a t => post a t.host.table.entries) s := by
  refine hw.ensures_of_view (fun host => host.table.entries) hp (fun t c x h' _ hx ha => ?_)
    (fun _ _ _ => rfl) (fun _ _ _ => rfl) h
  refine ha.stands fun target hc => ?_
  subst hc
  exact hfind target t x _ hx

/-- **What is ensured if the calls that undoing makes succeed is ensured on the host**, if
none but calls that go forward may fail. -/
theorem ensures_of_willing {post : α → Prop} (hp : p.Only (Effect.serves action))
    (hback : ∀ c, c.goesForward = false → Succeeds w c)
    (h : p.Ensures willing (fun _ => True) (fun a _ => post a) ()) :
    p.Ensures w (fun _ => True) (fun a _ => post a) s := by
  have hcomap : p.Ensures w (fun _ => True ∧ True) (fun a _ => post a) s := by
    refine Ensures.comap (f := fun _ => ()) h hp trivial fun t e x t' he _ hx => ⟨?_, trivial⟩
    cases e with
    | host c =>
      cases c with
      | find _ | unmount _ | undo _ _ => exact hback _ rfl t x t' hx
      | _ => trivial
    | _ => trivial
  exact hcomap.mono (fun _ _ _ _ _ hx => hx) (fun _ _ => trivial) fun _ _ _ hr => hr

end View

/-! ### A world that answers -/

/-- The replies of the host and of a state directory that nothing is wrong with. -/
def play : (e : Effect) → Stage → e.Reply × Stage
  | .host c, s => ((Mock.Host.answer c s.host).1, { s with host := (Mock.Host.answer c s.host).2 })
  | .save log, s => (.ok (), s.save log)
  | .load id, s => ((s.saved.find? (·.runId = id)).elim (.error (.runNotFound id)) .ok, s)
  | .latest, s => (s.saved.head?.elim (.error (.noRuns "")) .ok, s)
  | .resolve _, s => (some, s)
  | .pause _, s | .unlock, s => ((), s)
  | .cancelled, s => (false, s)
  | .now, s => (default, s)
  | .process, s => (1, s)
  | .lock, s => (.ok true, s)
  | .prepare, s => (.ok (), s)

/-- The host has no error for an answer, unless the call may fail. -/
def admits (may : Stage → HostCall → Bool) : Effect → Stage → Bool
  | .host c, s => may s c || (Mock.Host.answer c s.host).1.isOk
  | _, _ => true

theorem setting_play {may : Stage → HostCall → Bool} (s : Stage) (e : Effect)
    (h : admits may e s = true) : setting (fun s c => may s c = true) s e (play e s).1 (play e s).2 := by
  cases e with
  | host c =>
    refine ⟨_, .answered rfl fun hfailed => ?_, rfl⟩
    have hor : (may s c || (play (.host c) s).1.isOk) = true := h
    rwa [hfailed, Bool.or_false] at hor
  | _ => rfl

theorem sound_play (s : Stage) (e : Effect) (h : admits (fun _ _ => false) e s = true) :
    sound s e (play e s).1 (play e s).2 := by
  refine ⟨?_, ?_⟩
  · have hplay := setting_play s e h
    simpa only [Bool.false_eq_true] using hplay
  · cases e with
    | load id =>
      intro log hlog
      show (s.saved.find? (·.runId = id)).elim _ _ = _
      rw [hlog]
      rfl
    | lock => rfl
    | save log => rfl
    | _ => trivial

end Stage

end Provision
