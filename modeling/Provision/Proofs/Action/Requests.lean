import Provision.Action.Apply
import Provision.Proofs.Script.Reach

/-!
# What an action asks of the world

Applying and undoing an action makes no request but calls to the host about the
one target or unit of the action, questions about links, and pauses.

* `HostCall.serves`, `Effect.serves`: the requests that an action may make.
* `only_apply`, `only_rollback`: it makes no other.
-/

namespace Provision

open Script

/-- The calls about the target or the unit of an action. -/
def HostCall.serves : StepAction → HostCall → Prop
  | .mount spec, .find target | .mount spec, .unmount target => target = spec.target
  | .mount spec, .mount spec' => spec' = spec
  | .service unit, .unitState name | .service unit, .issue _ name | .service unit, .undo _ name =>
    name = unit.unitName
  | .service _, .reloadManager => True
  | .mount _, .unitState _ | .mount _, .issue _ _ | .mount _, .undo _ _ | .mount _, .reloadManager
  | .service _, .find _ | .service _, .mount _ | .service _, .unmount _ => False

/-- The requests that an action may make. -/
def Effect.serves (action : StepAction) : Effect → Prop
  | host c => c.serves action
  | resolve _ | pause _ => True
  | cancelled | now | process | lock | unlock | prepare | save _ | load _ | latest => False

variable {α σ : Type} {P : Effect → Prop}

theorem ensures_call {w : Setting Effect.interface σ} {always : σ → Prop} {c : HostCall}
    {post : c.Reply → σ → Prop} (s : σ) :
    (Effect.call c).Ensures w always post s ↔
      always s ∧ ∀ x s', w s (.host c) x s' → always s' ∧ post x s' := Iff.rfl

theorem ensures_resolutions {w : Setting Effect.interface σ} {always : σ → Prop} {paths : List Path}
    {post : (Path → Option Path) → σ → Prop} (s : σ) :
    (Effect.resolutions paths).Ensures w always post s ↔
      always s ∧ ∀ x s', w s (.resolve paths) x s' → always s' ∧ post x s' := Iff.rfl

theorem only_call {c : HostCall} (h : P (.host c)) : (Effect.call c).Only (I := Effect.interface) P :=
  only_request h

namespace Mount

variable {spec : MountSpec}

/-- What is mounted at a target is asked and looked up, nothing else. -/
theorem only_inspect : (inspect spec).Only (Effect.serves (.mount spec)) := by
  refine Only.bind (only_call rfl) fun reply => ?_
  rcases reply with e | (_ | entry)
  · trivial
  · trivial
  · exact Only.bind (only_request trivial) fun _ => trivial

theorem only_unmount : (unmount spec.target).Only (Effect.serves (.mount spec)) := by
  refine Only.bind (only_call rfl) fun reply => ?_
  rcases reply with e | (_ | entry)
  · trivial
  · trivial
  · refine Only.bind (only_call rfl) fun reply => ?_
    rcases reply with e | _ <;> trivial

theorem only_discard (fault : MountFault) : (discard spec fault).Only (Effect.serves (.mount spec)) := by
  refine Only.bind only_unmount fun reply => ?_
  rcases reply with e | _ <;> trivial

theorem only_mount : (mount spec).Only (Effect.serves (.mount spec)) := by
  refine Only.bind only_inspect fun status => ?_
  rcases status with e | (_ | _ | observed)
  · trivial
  · refine Only.bind (only_call rfl) fun reply => ?_
    rcases reply with e | _
    · trivial
    · refine Only.bind only_inspect fun status => ?_
      split
      · trivial
      · exact only_discard _
  · trivial
  · trivial

theorem only_revert (change : Change) : (revert spec change).Only (Effect.serves (.mount spec)) := by
  unfold revert
  split
  · refine Only.bind only_inspect fun status => ?_
    rcases status with e | (_ | _ | observed)
    · trivial
    · trivial
    · exact Only.bind only_unmount fun _ => trivial
    · trivial
  · trivial

end Mount

namespace Units

variable {unit : ServiceUnit}

theorem only_undoEach (ops : List UnitOp) :
    (undoEach unit.unitName ops).Only (Effect.serves (.service unit)) := by
  induction ops with
  | nil => trivial
  | cons op rest ih =>
    exact Only.bind (only_call rfl) fun _ => Only.bind ih fun _ => trivial

theorem only_revert (ops : List UnitOp) : (revert unit ops).Only (Effect.serves (.service unit)) :=
  only_undoEach _

theorem only_issueAll (ops : List UnitOp) : ∀ uncertain issued,
    (issueAll unit uncertain issued ops).Only (Effect.serves (.service unit)) := by
  induction ops with
  | nil => intro _ _; trivial
  | cons op rest ih =>
    intro uncertain issued
    refine Only.bind (only_call rfl) fun reply => ?_
    rcases reply with e | _
    · exact Only.bind (only_revert issued) fun _ => trivial
    · exact ih _ _

theorem only_reconcile (uncertain : List UnitOp) :
    (reconcile unit uncertain).Only (Effect.serves (.service unit)) := by
  have hreload : (reloadIfAsked unit).Only (Effect.serves (.service unit)) := by
    by_cases h : unit.reloadManager = true
    · rw [reloadIfAsked, if_pos h]; exact only_call trivial
    · rw [reloadIfAsked, if_neg h]; trivial
  have hdiff : (diff unit).Only (Effect.serves (.service unit)) := by
    refine Only.bind (Only.bind (only_call rfl) fun reply => ?_) fun _ => trivial
    rcases reply with e | _ <;> trivial
  refine Only.bind hreload fun reply => ?_
  rcases reply with e | _
  · trivial
  · refine Only.bind hdiff fun ops => ?_
    rcases ops with e | ops
    · trivial
    · exact Only.bind (only_issueAll ops _ _) fun _ => trivial

theorem only_settle (result : Except HostError Change) (uncertain : List UnitOp) :
    (settle unit result uncertain).Only (Effect.serves (.service unit)) := by
  rcases result with e | (_ | ops)
  · exact Only.bind (only_revert _) fun _ => trivial
  · trivial
  · trivial

end Units

theorem Retry.only_attempts (policy : Retry) {op : σ → Effects (Except HostError α × σ)}
    (hpause : ∀ d, P (.pause d)) (hop : ∀ s, (op s).Only (I := Effect.interface) P) (s : σ) :
    (policy.attempts op s).Only (I := Effect.interface) P := by
  -- the induction is on the attempts that are left
  suffices h : ∀ left n s, (policy.attemptsFrom op left n s).Only (I := Effect.interface) P from h _ _ _
  intro left
  induction left with
  | zero => exact fun _ s => hop s
  | succ left ih =>
    intro n s
    refine Only.bind (hop s) fun r => ?_
    obtain ⟨_ | _, _⟩ := r
    · dsimp only
      split
      · exact Only.bind (only_request (hpause _)) fun _ => ih _ _
      · trivial
    · trivial

theorem Retry.only_repeating (policy : Retry) {op : Effects (Except HostError α)}
    (hpause : ∀ d, P (.pause d)) (hop : op.Only (I := Effect.interface) P) :
    (policy.repeating op).Only (I := Effect.interface) P :=
  (policy.only_attempts hpause (fun _ => hop.map) ()).map

namespace StepAction

variable (policy : Retry)

/-- **Applying an action makes no request but its own.** -/
theorem only_apply (action : StepAction) : (action.apply policy).Only (Effect.serves action) := by
  cases action with
  | mount spec => exact policy.only_repeating (fun _ => trivial) Mount.only_mount
  | service unit =>
    exact Only.bind (policy.only_attempts (fun _ => trivial) Units.only_reconcile [])
      fun r => Units.only_settle r.1 r.2

/-- **Undoing a change makes no request but those of the action.** -/
theorem only_rollback (action : StepAction) (change : Change) :
    (action.rollback policy change).Only (Effect.serves action) := by
  unfold rollback
  split
  · trivial
  · refine policy.only_repeating (fun _ => by cases action <;> trivial) ?_
    cases action with
    | mount spec => exact Mount.only_revert change
    | service unit =>
      cases change with
      | mount mounted => trivial
      | service ops => exact Units.only_revert ops

end StepAction

end Provision
