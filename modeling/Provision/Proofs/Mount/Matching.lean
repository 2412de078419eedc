import Provision.Proofs.Mount.Stack

/-!
# What undoing a mount leaves alone

* `Mount.Matches`: what is on top at its target is what was asked for.
* `ensures_rollback_unmatched`: **undoing a mount leaves the table alone where what is on top is not
  what was asked for**.
* `ensures_rollback_stack`: undoing a change leaves every target alone but the one where what it
  mounted is on top.
-/

namespace Provision.Mount

open Script

variable {spec : MountSpec} {t : List MountEntry} {p : Path}

/-- What is on top at the target of a file system is that file system, by some reading of links. -/
def Matches (spec : MountSpec) (t : List MountEntry) : Prop :=
  ∃ entry links, topmost spec.target t = some entry ∧ entry.satisfies links spec = true

/-- What is found to match does. -/
theorem ensures_inspect_matches (spec : MountSpec) (t : List MountEntry) :
    (inspect spec).Ensures standing (· = t) (fun r t' => t' = t ∧
      (r = .ok .matching → Matches spec t)) t := by
  refine ensures_bind.2 ((ensures_call t).2 ⟨rfl, fun r t' hx => ?_⟩)
  obtain ⟨rfl, rfl⟩ := hx
  refine ⟨rfl, ?_⟩
  cases htop : topmost spec.target t' with
  | none => exact ⟨rfl, rfl, fun h => by cases h⟩
  | some entry =>
    refine ensures_bind.2 ((ensures_resolutions t').2 ⟨rfl, fun links t hx => ?_⟩)
    obtain rfl : t = t' := hx
    refine ⟨rfl, rfl, rfl, ?_⟩
    by_cases hsat : entry.satisfies links spec = true
    · exact fun _ => ⟨entry, links, htop, hsat⟩
    · rw [if_neg hsat]
      exact fun h => by cases h

/-- **Undoing a mount leaves the table alone** where what is on top is not what was asked for. -/
theorem ensures_rollback_unmatched (policy : Retry) {change : Change}
    (h : change = .mount true → ¬Matches spec t) :
    ((StepAction.mount spec).rollback policy change).Ensures standing (· = t) (fun _ _ => True) t := by
  have hrevert : (revert spec change).Ensures standing (· = t) (fun _ _ => True) t := by
    unfold revert
    split
    · rename_i hchange
      refine ensures_bind.2 ((ensures_inspect_matches spec t).imp ?_)
      rintro (e | (_ | _ | observed)) t' ht' ⟨-, hmatches⟩
      · exact ⟨ht', trivial⟩
      · exact ⟨ht', trivial⟩
      · exact absurd (hmatches rfl) (h hchange)
      · exact ⟨ht', trivial⟩
    · exact ⟨rfl, trivial⟩
  unfold StepAction.rollback
  split
  · exact ⟨rfl, trivial⟩
  · refine policy.ensures_repeating (· = t) standing_pause (fun t' ht' => ?_) rfl
    subst ht'
    exact hrevert.imp fun _ _ ht _ => ⟨trivial, fun _ _ _ => ht⟩

/-- **Undoing a change leaves a target alone**, unless what it mounted is on top there. -/
theorem ensures_rollback_stack (policy : Retry) {change : Change}
    (h : change = .mount true → spec.target.same p = true → ¬Matches spec t) :
    ((StepAction.mount spec).rollback policy change).Ensures standing
      (fun t' => stack p t' = stack p t) (fun _ _ => True) t := by
  by_cases hmatches : change = .mount true → ¬Matches spec t
  · exact (ensures_rollback_unmatched policy hmatches).mono (fun _ _ _ _ _ hx => hx)
      (fun t' ht' => by rw [ht']) fun _ _ _ _ => trivial
  · -- what comes down does not stand at this target
    obtain ⟨rfl, hon⟩ := Classical.not_imp.1 hmatches
    have hne : ¬spec.target.same p = true := fun hsame => hon (h rfl hsame)
    refine (ensures_rollback_mount policy spec t).mono (fun _ _ _ _ _ hx => hx) ?_ fun _ _ _ _ => trivial
    rintro t' (rfl | hdown)
    · rfl
    · rw [stack_takeDown hdown, if_neg hne]

end Provision.Mount
