import Provision.Proofs.Mock.Stage
import Provision.Proofs.Mount.Fallible

/-!
# What undoing operations on a unit comes to

Operations are undone in attempts, with a pause after each that is not the last one. A failure does not
stop an attempt, and can leave it with some of its effects, the operation that failed included.

* `Rounds`: a host in memory, and what was exchanged with it, attempt by attempt.
* `ensures_undoEach_heard`: every operation is issued, and the first error is what is returned.
* `Undone`: what is known of the attempts, and of the result.
* `ensures_rollback_heard`: **each attempt undoes everything, and the last one gives the result.**
* `rollback_reverts`: **what was undone without an error is undone**, whatever failed before.
-/

namespace Provision

open Script Switch

open Mount (Exchange)

/-- The inverse of an operation that turned a switch sets it. -/
theorem UnitOp.sets?_inverse {b : Switch} {op : UnitOp} {v : Bool} (h : op.turned? b = some v) :
    ∃ inv, op.inverse? = some inv ∧ inv.sets? b = some !v := by
  cases hinv : op.inverse? with
  | none =>
    rw [UnitOp.turned?_of_inverse?_none hinv] at h
    cases h
  | some inv =>
    have hset : op.sets? b = some v := by simpa [UnitOp.turned?, hinv] using h
    refine ⟨inv, rfl, ?_⟩
    cases op <;> cases hinv <;> cases b <;> cases hset <;> rfl

/-- Undoing operations leaves a switch where the inverse of the first one that turned it sets it. -/
theorem Switch.takeBack_of_first {b : Switch} {ops : List UnitOp} {op : UnitOp}
    (h : ops.find? (fun op => (op.turned? b).isSome) = some op) (x : Bool) :
    ∃ inv, op.inverse? = some inv ∧ inv.sets? b = some (takeBack b ops x) := by
  obtain ⟨hturned, before, rest, rfl, hidle⟩ := List.find?_eq_some_iff_append.1 h
  obtain ⟨v, hv⟩ := Option.isSome_iff_exists.1 hturned
  have hbefore : ∀ op ∈ before, op.turned? b = none := fun op hop => by simpa using hidle op hop
  have hends : takeBack b (before ++ op :: rest) x = !v := by
    rw [takeBack_append, takeBack_of_idle hbefore]
    show (op.turned? b).elim (takeBack b rest x) (!·) = !v
    rw [hv]
    rfl
  rw [hends]
  exact UnitOp.sets?_inverse hv

/-- The error of a result, if it is one. -/
def failure? {α : Type} : Except HostError α → Option HostError
  | .ok _ => none
  | .error e => some e

/-- The error of a reply, if it is one. -/
def Mount.Exchange.error? (x : Exchange) : Option HostError := failure? x.reply

/-- A host in memory, and what was exchanged with it. -/
structure Rounds where
  stage : Stage
  /-- What was exchanged before each pause. -/
  before : List (List Exchange) := []
  /-- What was exchanged since the last pause. -/
  now : List Exchange := []

namespace Rounds

/-- What was exchanged, attempt by attempt. -/
def attempts (s : Rounds) : List (List Exchange) := s.before ++ [s.now]

/-- What is known after a request. -/
def hear (s : Rounds) : (e : Effect) → e.Reply → Stage → Rounds
  | .host c, x, stage => ⟨stage, s.before, s.now ++ [⟨c, x⟩]⟩
  | .pause _, _, stage => ⟨stage, s.before ++ [s.now], []⟩
  | _, _, stage => { s with stage }

/-- The setting in which one keeps what was exchanged. -/
def setting (w : Setting Effect.interface Stage) : Setting Effect.interface Rounds :=
  fun s e x t => ∃ stage, w s.stage e x stage ∧ t = s.hear e x stage

variable {w : Setting Effect.interface Stage} {s t : Rounds}

theorem hear_stage (s : Rounds) (e : Effect) (x : e.Reply) (stage : Stage) :
    (s.hear e x stage).stage = stage := by
  cases e <;> rfl

/-- Keeping what was exchanged makes no difference to the host. -/
theorem reaches_stage {α : Type} {p q : Effects α} (h : p.Reaches (setting w) s q t) :
    p.Reaches w s.stage q t.stage := by
  induction h with
  | here => exact .here _ _
  | ask hx _ ih =>
    obtain ⟨stage, hw, rfl⟩ := hx
    rw [hear_stage] at ih
    exact .ask hw ih

/-- The replies of the host in memory. -/
def play (e : Effect) (s : Rounds) : e.Reply × Rounds :=
  ((Stage.play e s.stage).1, s.hear e (Stage.play e s.stage).1 (Stage.play e s.stage).2)

theorem setting_play (s : Rounds) (e : Effect) (h : Stage.admits (fun _ _ => true) e s.stage = true) :
    setting (Stage.setting fun _ _ => True) s e (play e s).1 (play e s).2 :=
  ⟨_, Stage.lawful_setting _ _ _ _ (Stage.setting_play s.stage e h), rfl⟩

end Rounds

/-- The calls that undo operations on a unit, the last one first. -/
def ServiceUnit.undoCalls (unit : ServiceUnit) (ops : List UnitOp) : List HostCall :=
  (ops.reverse.filterMap UnitOp.inverse?).map (.undo · unit.unitName)

namespace Units

variable {w : Setting Effect.interface Stage}

/-- **Every operation is issued**, and the first error is what is returned. -/
theorem ensures_undoEach_heard (w : Setting Effect.interface Stage) (name : String) (ops : List UnitOp)
    (s : Rounds) : (undoEach name ops).Ensures (Rounds.setting w) (fun _ => True)
      (fun r t => t.before = s.before ∧ ∃ new, t.now = s.now ++ new ∧
        new.map (·.call) = ops.map (.undo · name) ∧ failure? r = new.findSome? (·.error?)) s := by
  induction ops generalizing s with
  | nil => exact ⟨trivial, rfl, [], by simp, rfl, rfl⟩
  | cons op rest ih =>
    refine ensures_bind.2 ((ensures_call s).2 ⟨trivial, fun x t hx => ⟨trivial, ?_⟩⟩)
    obtain ⟨stage, -, rfl⟩ := hx
    refine ensures_bind.2 ((ih _).imp fun others t _ hothers => ⟨trivial, ?_⟩)
    obtain ⟨hbefore, new, hnow, hcalls, hresult⟩ := hothers
    refine ⟨hbefore, ⟨.undo op name, x⟩ :: new, ?_, ?_, ?_⟩
    · rw [hnow]
      show s.now ++ [_] ++ new = s.now ++ _ :: new
      simp
    · rw [List.map_cons, List.map_cons, hcalls]
    · have herror : Exchange.error? ⟨.undo op name, x⟩ = failure? x := rfl
      rw [List.findSome?_cons, herror]
      cases (x : Except HostError Unit) with
      | ok _ => exact hresult
      | error e => rfl

/-- What is known of the attempts to undo operations, and of the result. -/
structure Undone (unit : ServiceUnit) (ops : List UnitOp) (r : Except HostError Unit) (t : Rounds) :
    Prop where
  /-- Each attempt undoes everything. -/
  calls : ∀ attempt ∈ t.attempts, attempt.map (·.call) = unit.undoCalls ops
  /-- The first error of an attempt decides whether there is another one. -/
  again : ∀ attempt ∈ t.before, ∃ e, attempt.findSome? (·.error?) = some e ∧ e.isTransient = true
  /-- The first error of the last attempt is what is returned. -/
  result : failure? r = t.now.findSome? (·.error?)

/-- **Each attempt undoes everything, and the last one gives the result.** -/
theorem ensures_rollback_heard (w : Setting Effect.interface Stage) (policy : Retry) (unit : ServiceUnit)
    (ops : List UnitOp) (stage : Stage) :
    ((StepAction.service unit).rollback policy (.service ops)).Ensures (Rounds.setting w) (fun _ => True)
      (Undone unit ops) { stage } := by
  unfold StepAction.rollback
  by_cases hnoop : (Change.service ops).isNoop = true
  · obtain rfl : ops = [] := by simpa [Change.isNoop] using hnoop
    rw [if_pos hnoop]
    exact ⟨trivial, by simp [Rounds.attempts, ServiceUnit.undoCalls], by simp, rfl⟩
  · rw [if_neg hnoop]
    -- before an attempt nothing was exchanged in it, and all earlier ones failed
    let inv (_ : Unit) (t : Rounds) : Prop := t.now = [] ∧
      (∀ attempt ∈ t.before, attempt.map (·.call) = unit.undoCalls ops) ∧
      ∀ attempt ∈ t.before, ∃ e, attempt.findSome? (·.error?) = some e ∧ e.isTransient = true
    refine ensures_map.2 (policy.ensures_attempts_paused inv (fun r t => Undone unit ops r.1 t) ?_
      ⟨rfl, by simp, by simp⟩)
    rintro ⟨⟩ s ⟨hnow, hcalls, hagain⟩
    refine ensures_map.2 ((ensures_undoEach_heard w unit.unitName _ s).imp ?_)
    rintro r t - ⟨hbefore, new, hnew, hundo, hresult⟩
    rw [hnow, List.nil_append] at hnew
    have hall : ∀ attempt ∈ t.attempts, attempt.map (·.call) = unit.undoCalls ops := by
      intro attempt h
      rcases List.mem_append.1 h with h | h
      · exact hcalls attempt (hbefore ▸ h)
      · rw [List.mem_singleton.1 h, hnew]
        exact hundo
    refine ⟨⟨hall, hbefore ▸ hagain, by rw [hnew]; exact hresult⟩, fun e he htransient d x u hx => ?_⟩
    -- the pause closes the attempt
    obtain ⟨stage, -, rfl⟩ := hx
    refine ⟨trivial, rfl, hall, fun attempt h => ?_⟩
    rcases List.mem_append.1 h with h | h
    · exact hagain attempt (hbefore ▸ h)
    · obtain rfl : r = .error e := he
      rw [List.mem_singleton.1 h, hnew]
      exact ⟨e, hresult.symm, htransient⟩

end Units

namespace StepAction

variable {policy : Retry} {unit : ServiceUnit} {ops : List UnitOp}

/-- **What was undone without an error is undone.** However often undoing operations is tried, and
whatever fails on the way, each attempt issues the inverse of every operation that has one, once, the
last one first; another attempt follows only if the first error is worth it; and the first error of the
last attempt is what is returned. If nothing is returned, each switch of the unit is where the inverse
of the first operation that turned it sets it, and where it was before if no operation turned it. -/
theorem rollback_reverts (policy : Retry) (unit : ServiceUnit) (ops : List UnitOp) (host : Mock.Host)
    {r : Except HostError Unit} {t : Rounds}
    (h : ((StepAction.service unit).rollback policy (.service ops)).Reaches
      (Rounds.setting (Stage.setting fun _ _ => True)) { stage := ⟨host, []⟩ } (.done r) t) :
    (r = .ok () → ∀ b : Switch,
      (∀ op, ops.find? (fun op => (op.turned? b).isSome) = some op → ∃ inv, op.inverse? = some inv ∧
        inv.sets? b = some (t.stage.host.manager.shows unit.unitName b)) ∧
      ((∀ op ∈ ops, op.turned? b = none) → t.stage.host.manager.shows unit.unitName b =
        host.manager.shows unit.unitName b)) ∧
    (∀ attempt ∈ t.attempts, attempt.map (·.call) = unit.undoCalls ops) ∧
    (∀ attempt ∈ t.before, ∃ e, attempt.findSome? (·.error?) = some e ∧ e.isTransient = true) ∧
    ∀ e, r = .error e → t.now.findSome? (·.error?) = some e := by
  have hundone := ((Units.ensures_rollback_heard _ policy unit ops _).sound h).2
  refine ⟨?_, hundone.calls, hundone.again, fun e he => ?_⟩
  · rintro rfl b
    have hswitch := ((Stage.lawful_setting.ensures_of_switch b False
      (only_rollback policy (.service unit) (.service ops)) False.elim
      (Units.ensures_rollback_switch policy unit b ops _)).sound (Rounds.reaches_stage h)).2
    have hends : t.stage.host.manager.shows unit.unitName b =
        takeBack b ops (host.manager.shows unit.unitName b) :=
      hswitch.resolve_right fun hfailed => nomatch hfailed.2
    rw [hends]
    exact ⟨fun op hop => takeBack_of_first hop _, fun hidle => takeBack_of_idle hidle _⟩
  · rw [← hundone.result, he]
    rfl

/-- A host on which a unit is enabled and runs. The first time it is disabled, the reply is lost. -/
def running : Mock.Host :=
  { manager := { units := [("web.service", { enabled := true, active := true })],
                 scripted := [⟨.disable, "web.service", .lostReply, 1⟩] } }

/-- The first attempt does everything, but an error comes of it; the second one repeats it. The unit
was stopped in the end, but what counts is that it was started first. -/
theorem rollback_reverts_running : ∃ t,
    ((StepAction.service { name := "web" }).rollback (.immediate 2)
      (.service [.start, .enable, .restart, .stop])).Reaches
        (Rounds.setting (Stage.setting fun _ _ => True)) { stage := ⟨running, []⟩ } (.done (.ok ())) t ∧
    t.attempts.map (·.map (·.call)) = List.replicate 2
      [.undo .start "web.service", .undo .disable "web.service", .undo .stop "web.service"] ∧
    (∀ attempt ∈ t.before, ∃ e, attempt.findSome? (·.error?) = some e ∧ e.isTransient = true) ∧
    ∀ b : Switch, t.stage.host.manager.shows "web.service" b = false := by
  obtain ⟨t, hwalk, htwice⟩ : ∃ t,
      ((StepAction.service { name := "web" }).rollback (.immediate 2)
        (.service [.start, .enable, .restart, .stop])).walk Rounds.play
          (fun e s => Stage.admits (fun _ _ => true) e s.stage) 40 { stage := ⟨running, []⟩ } =
            some (.done (.ok ()), t) ∧ t.attempts.length = 2 :=
    ⟨_, rfl, rfl⟩
  have hreach := Reaches.of_walk Rounds.setting_play hwalk
  obtain ⟨hreverts, hcalls, hagain, -⟩ := rollback_reverts _ _ _ _ hreach
  refine ⟨t, hreach, ?_, hagain, fun b => ?_⟩
  · exact List.eq_replicate_iff.2 ⟨by simpa using htwice, List.forall_mem_map.2 hcalls⟩
  · -- the first operation that turned a switch is undone by one that turns it off
    have hfirst := (hreverts rfl b).1
    cases b with
    | enabled =>
      obtain ⟨inv, hinv, hset⟩ := hfirst .enable rfl
      cases hinv
      exact (Option.some.inj hset).symm
    | active =>
      obtain ⟨inv, hinv, hset⟩ := hfirst .start rfl
      cases hinv
      exact (Option.some.inj hset).symm

end StepAction

end Provision
