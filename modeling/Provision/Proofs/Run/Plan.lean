import Mathlib.Data.List.Nodup
import Provision.Run.Orchestrator

/-!
# The order of a plan

* `Registry.Built`: the registries that registering steps makes.
* `place_of_plan`, `plan_perm`: a plan is what placing comes to, so it has the steps of its registry,
  in some order.
* `Built.nodup_plan`: **no two steps of a plan have one name**.
* `plan_of_checkedPlan`: a run carries out the plan of its registry.
-/

namespace Provision

/-- Placing steps only changes their order. -/
theorem Order.place_perm (n : Nat) : ∀ placed waiting : List Step,
    ((Order.place n placed waiting).1 ++ (Order.place n placed waiting).2).Perm (placed ++ waiting) := by
  induction n with
  | zero => exact fun _ _ => .rfl
  | succ n ih =>
    intro placed waiting
    unfold Order.place
    -- each round moves one step from those that wait to those that are placed
    cases hfind : waiting.find? (isReady placed) with
    | none => exact .rfl
    | some step =>
      have hmem : step ∈ waiting := List.mem_of_find?_eq_some hfind
      refine (ih (placed ++ [step]) (waiting.erase step)).trans ?_
      rw [List.append_assoc, List.singleton_append]
      exact (List.perm_cons_erase hmem).symm.append_left placed

namespace Registry

/-- The registries that registering steps makes. -/
inductive Built : Registry → Prop
  | empty : Built {}
  | register {r r' : Registry} {step : Step} : Built r → r.register step = .ok r' → Built r'

variable {r r' : Registry} {step : Step} {plan : RunPlan}

/-- A plan is what placing the steps comes to. -/
theorem place_of_plan (h : r.plan = .ok plan) :
    Order.place r.steps.length [] r.steps = (plan.steps, []) := by
  unfold Registry.plan at h
  split at h
  · cases h
  · split at h
    · rename_i placed hplace
      rw [hplace, ← Except.ok.inj h]
    · cases h

/-- A plan has the steps of its registry. -/
theorem plan_perm (h : r.plan = .ok plan) : plan.steps.Perm r.steps := by
  have hperm := Order.place_perm r.steps.length [] r.steps
  rwa [place_of_plan h, List.append_nil, List.nil_append] at hperm

/-- A step is registered at the end, under a name that is new. -/
theorem register_eq (h : r.register step = .ok r') :
    step.id ∉ r.steps.map (·.id) ∧ r' = ⟨r.steps ++ [step]⟩ := by
  unfold Registry.register at h
  by_cases hid : r.contains step.id = true
  · rw [if_pos hid] at h
    cases h
  · rw [if_neg hid] at h
    have hnew : step.id ∉ r.steps.map (·.id) := by
      intro hmem
      obtain ⟨s, hs, hs'⟩ := List.mem_map.1 hmem
      exact hid (List.any_eq_true.2 ⟨s, hs, by simpa using hs'⟩)
    refine ⟨hnew, ?_⟩
    split at h
    · exact (Except.ok.inj h).symm
    · split at h
      · cases h
      · exact (Except.ok.inj h).symm

theorem Built.nodup (h : Built r) : (r.steps.map (·.id)).Nodup := by
  induction h with
  | empty => exact List.nodup_nil
  | register _ hr ih =>
    obtain ⟨hnew, rfl⟩ := register_eq hr
    rw [List.map_append, List.map_singleton, ← List.concat_eq_append]
    exact List.Nodup.concat hnew ih

/-- **No two steps of a plan have one name.** -/
theorem Built.nodup_plan (h : Built r) (hplan : r.plan = .ok plan) :
    (plan.steps.map (·.id)).Nodup :=
  ((plan_perm hplan).map _).nodup_iff.2 h.nodup

/-- The registry of a plan file is made by registering its steps. -/
theorem built_ofPlanFile {file : PlanFile} (h : ofPlanFile file = .ok r) : Built r := by
  have hfold : ∀ (steps : List Step) (r₀ : Registry), Built r₀ →
      steps.foldlM Registry.register r₀ = .ok r → Built r := by
    intro steps
    induction steps with
    | nil =>
      intro r₀ h₀ h
      obtain rfl : r₀ = r := Except.ok.inj h
      exact h₀
    | cons step rest ih =>
      intro r₀ h₀ h
      rw [List.foldlM_cons] at h
      cases hreg : r₀.register step with
      | error e => rw [hreg] at h; cases h
      | ok r₁ => rw [hreg] at h; exact ih r₁ (h₀.register hreg) h
  exact hfold _ _ .empty h

end Registry

/-- A run carries out the plan of its registry. -/
theorem Orchestrator.plan_of_checkedPlan {registry : Registry} {skip : List String} {plan : RunPlan}
    (h : checkedPlan registry skip = .ok plan) : registry.plan = .ok plan := by
  unfold checkedPlan at h
  cases hplan : registry.plan with
  | error e => rw [hplan] at h; cases h
  | ok plan' =>
    simp only [hplan, bind, Except.bind] at h
    split at h
    · cases h
    · exact h

end Provision
