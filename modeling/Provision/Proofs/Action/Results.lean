import Provision.Proofs.Action.Requests
import Provision.Proofs.Retry
import Provision.Run.Orchestrator

/-!
# What applying and undoing an action can return

* `returns_fits`: an action that is applied makes a change of its own kind.
* `ensures_rollback_ok`: a change is undone without an error if no call that undoing it
  makes fails.
-/

namespace Provision

open Script

/-- A change is one that the action can make. -/
def StepAction.Fits : StepAction → Change → Prop
  | mount _, .mount _ | service _, .service _ => True
  | mount _, .service _ | service _, .mount _ => False

theorem StepAction.fits_assumedChange (action : StepAction) : action.Fits action.assumedChange := by
  cases action <;> trivial

/-- The calls that undoing a change makes succeed. -/
def Willing : (e : Effect) → e.Reply → Prop
  | .host (.find _), x => x.isOk = true
  | .host (.unmount _), x | .host (.undo _ _), x => x.isOk = true
  | _, _ => True

/-- The setting in which the calls that undoing a change makes succeed. -/
def willing : Setting Effect.interface Unit := fun _ e x _ => Willing e x

namespace Mount

/-- What is taken down because it is not as requested is reported as a failure. -/
theorem returns_discard (spec : MountSpec) (fault : MountFault) :
    (discard spec fault).Returns fun r => r.isOk = false := by
  refine (returns_any _).bind ?_
  rintro (e | _) - <;> exact rfl

theorem returns_mount (spec : MountSpec) :
    (mount spec).Returns fun r => ∀ change, r = .ok change → ∃ mounted, change = .mount mounted := by
  have hmounted : ∀ mounted change, (.ok (.mount mounted) : Except HostError Change) = .ok change →
      ∃ mounted, change = .mount mounted := fun _ _ h => ⟨_, (Except.ok.inj h).symm⟩
  have hfailed : ∀ e change, (.error e : Except HostError Change) = .ok change →
      ∃ mounted, change = .mount mounted := fun _ _ h => by cases h
  refine (returns_any _).bind ?_
  rintro (e | (_ | _ | observed)) -
  · exact hfailed _
  · refine (returns_any _).bind ?_
    rintro (e | _) -
    · exact hfailed _
    · refine (returns_any _).bind fun status _ => ?_
      cases faultOf status with
      | none => exact hmounted _
      | some fault =>
        refine (returns_any _).bind ?_
        rintro (e | _) - <;> exact hfailed _
  · exact hmounted _
  · exact hfailed _

/-- Undoing a mount fails only if one of its calls does. -/
theorem ensures_revert_ok (spec : MountSpec) (change : Change) :
    (revert spec change).Ensures willing (fun _ => True) (fun r _ => r.isOk = true) () := by
  have hunmount : (unmount spec.target).Ensures willing (fun _ => True) (fun r _ => r.isOk = true) () := by
    refine ensures_bind.2 ((ensures_call ()).2 ⟨trivial, fun r _ hr => ⟨trivial, ?_⟩⟩)
    obtain e | _ | entry := (r : Except HostError (Option MountEntry))
    · exact Bool.noConfusion hr
    · exact ⟨trivial, rfl⟩
    · refine ensures_bind.2 ((ensures_call ()).2 ⟨trivial, fun r _ hr => ⟨trivial, ?_⟩⟩)
      cases (r : Except HostError Unit) with
      | error e => exact Bool.noConfusion hr
      | ok _ => exact ⟨trivial, rfl⟩
  have hinspect : (inspect spec).Ensures willing (fun _ => True) (fun r _ => r.isOk = true) () := by
    refine ensures_bind.2 ((ensures_call ()).2 ⟨trivial, fun r _ hr => ⟨trivial, ?_⟩⟩)
    obtain e | _ | entry := (r : Except HostError (Option MountEntry))
    · exact Bool.noConfusion hr
    · exact ⟨trivial, rfl⟩
    · exact ensures_bind.2 ((ensures_resolutions ()).2
        ⟨trivial, fun _ _ _ => ⟨trivial, trivial, rfl⟩⟩)
  unfold revert
  split
  · refine ensures_bind.2 (hinspect.imp ?_)
    rintro (e | (_ | _ | observed)) _ - hr
    · exact Bool.noConfusion hr
    · exact ⟨trivial, rfl⟩
    · refine ensures_bind.2 (hunmount.imp ?_)
      rintro (e | _) _ - hr
      · exact Bool.noConfusion hr
      · exact ⟨trivial, rfl⟩
    · exact ⟨trivial, rfl⟩
  · exact ⟨trivial, rfl⟩

end Mount

namespace Units

/-- Undoing operations fails only if one of the inverses does. -/
theorem ensures_undoEach_ok (name : String) (ops : List UnitOp) :
    (undoEach name ops).Ensures willing (fun _ => True) (fun r _ => r.isOk = true) () := by
  induction ops with
  | nil => exact ⟨trivial, rfl⟩
  | cons op rest ih =>
    refine ensures_bind.2 ((ensures_call ()).2 ⟨trivial, fun r _ hr => ⟨trivial, ?_⟩⟩)
    refine ensures_bind.2 (ih.imp fun others _ _ hothers => ⟨trivial, ?_⟩)
    cases (r : Except HostError Unit) with
    | error e => exact Bool.noConfusion hr
    | ok _ => exact hothers

theorem returns_reconcile (unit : ServiceUnit) (U : List UnitOp) :
    (reconcile unit U).Returns fun r => ∀ change, r.1 = .ok change → ∃ ops, change = .service ops := by
  refine (returns_any _).bind ?_
  rintro (e | _) -
  · exact fun change h => by cases h
  · refine (returns_any _).bind ?_
    rintro (e | ops) -
    · exact fun change h => by cases h
    · refine (returns_any _).bind ?_
      rintro ⟨e | _, U'⟩ -
      · exact fun change h => by cases h
      · exact fun change h => ⟨ops, (Except.ok.inj h).symm⟩

end Units

namespace StepAction

/-- **An action that is applied makes a change of its own kind.** -/
theorem returns_fits (policy : Retry) (action : StepAction) :
    (action.apply policy).Returns fun r => ∀ change, r = .ok change → action.Fits change := by
  cases action with
  | mount spec =>
    -- repeating throws away what the attempts learned
    let made (r : Except HostError Change × Unit) : Prop :=
      ∀ change, r.1 = .ok change → ∃ mounted, change = .mount mounted
    have hmount : (policy.attempts (fun u => (·, u) <$> Mount.mount spec) ()).Returns made :=
      policy.returns_attempts (fun u => (Mount.returns_mount spec).map fun r hr => hr) ()
    refine hmount.map fun r hr change hchange => ?_
    obtain ⟨mounted, rfl⟩ := hr change hchange
    trivial
  | service unit =>
    refine (policy.returns_attempts (Units.returns_reconcile unit) []).bind ?_
    rintro ⟨e | change, U⟩ hr
    · exact (returns_any _).bind fun _ _ change h => by cases h
    · obtain ⟨ops, rfl⟩ := hr change rfl
      intro change h
      obtain rfl := Except.ok.inj h
      trivial

/-- **A change is undone without an error** if it is one of the action and no call that
undoing it makes fails. -/
theorem ensures_rollback_ok (policy : Retry) {action : StepAction} {change : Change}
    (h : action.Fits change) : (action.rollback policy change).Ensures willing (fun _ => True)
      (fun r _ => r.isOk = true) () := by
  unfold rollback
  by_cases hnoop : change.isNoop = true
  · rw [if_pos hnoop]
    exact ⟨trivial, rfl⟩
  · rw [if_neg hnoop]
    refine policy.ensures_repeating (fun _ => True) (fun _ _ _ _ _ => rfl) (fun _ _ => ?_) trivial
    have hundo : (action.undo change).Ensures willing (fun _ => True) (fun r _ => r.isOk = true) () := by
      cases action with
      | mount spec => exact Mount.ensures_revert_ok spec change
      | service unit =>
        cases change with
        | mount mounted => exact h.elim
        | service ops => exact Units.ensures_undoEach_ok _ _
    exact hundo.imp fun r _ _ hr => ⟨hr, fun _ _ _ => trivial⟩

end StepAction

end Provision
