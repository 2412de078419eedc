import Mathlib.Data.Set.Finite.List
import Mathlib.Logic.Relation
import Mathlib.Order.Preorder.Finite
import Provision.Proofs.Run.Plan

/-!
# Steps that depend on each other

* `Registry.Known`, `Registry.Needs`, `Registry.Acyclic`: every dependency is registered, and no
  step needs itself, be it through others.
* `place_stuck`: the steps that are left over when placing ends are waiting for others.
* `exists_cycle`: what always leads on leads to a cycle.
* `Acyclic.exists_ready`: among some steps there is one that needs none of them.
* `exists_plan`: **where dependencies are known and acyclic, there is a plan.**
* `checkedPlan_perm`: **whether there is one does not depend on the order of registration.**
-/

namespace Provision

/-- The first of some texts is one of them. -/
theorem Text.mem_of_least? {texts : List String} {first : String} (h : least? texts = some first) :
    first ∈ texts := by
  have hfold : ∀ (rest : List String) (s : String),
      rest.foldl (fun a b => if b < a then b else a) s ∈ s :: rest := by
    intro rest
    induction rest with
    | nil => simp
    | cons t rest ih =>
      intro s
      rw [List.foldl_cons]
      split
      · exact List.mem_cons_of_mem _ (ih t)
      · rcases List.mem_cons.1 (ih s) with hs | hrest
        · rw [hs]
          exact List.mem_cons_self
        · exact List.mem_cons_of_mem _ (List.mem_cons_of_mem _ hrest)
  cases texts with
  | nil => cases h
  | cons s rest => exact Option.some.inj h ▸ hfold rest s

namespace Order

variable {placed waiting : List Step} {step : Step}

/-- A step that is not ready depends on a name that has not been placed. -/
theorem isReady_eq_false : isReady placed step = false ↔
    ∃ d ∈ step.dependsOn, ∀ other ∈ placed, other.id ≠ d := by
  simp [isReady]

/-- The steps that are left over when placing ends are not ready. -/
theorem place_stuck (n : Nat) : ∀ placed waiting : List Step, waiting.length ≤ n →
    ∀ step ∈ (place n placed waiting).2, isReady (place n placed waiting).1 step = false := by
  induction n with
  | zero =>
    intro placed waiting hn step hstep
    obtain rfl : waiting = [] := List.eq_nil_of_length_eq_zero (by omega)
    cases hstep
  | succ n ih =>
    intro placed waiting hn
    unfold place
    cases hfind : waiting.find? (isReady placed) with
    | none => simpa using hfind
    | some step =>
      have hmem : step ∈ waiting := List.mem_of_find?_eq_some hfind
      have hlength := List.length_erase_of_mem hmem
      exact ih _ _ (by omega)

end Order

namespace Registry

variable {r r' : Registry} {steps : List Step}

/-- Every dependency is registered. -/
def Known (r : Registry) : Prop :=
  ∀ step ∈ r.steps, ∀ d ∈ step.dependsOn, ∃ other ∈ r.steps, other.id = d

/-- A registered step depends on another one. -/
def Needs (r : Registry) (a b : Step) : Prop := a ∈ r.steps ∧ b ∈ r.steps ∧ b.id ∈ a.dependsOn

/-- No step needs itself, be it through others. -/
def Acyclic (r : Registry) : Prop := ∀ step, ¬Relation.TransGen r.Needs step step

/-- Dependencies are acyclic if each step has a higher rank than the steps it needs. -/
theorem acyclic_of_rank (rank : Step → Nat) (h : ∀ a b, r.Needs a b → rank b < rank a) : r.Acyclic := by
  have hchain : ∀ {a b}, Relation.TransGen r.Needs a b → rank b < rank a := by
    intro a b hab
    induction hab with
    | single hb => exact h _ _ hb
    | tail _ hbc ih => exact (h _ _ hbc).trans ih
  exact fun step hstep => lt_irrefl _ (hchain hstep)

theorem Known.perm (h : r.Known) (hperm : r.steps.Perm r'.steps) : r'.Known := by
  intro step hstep d hd
  obtain ⟨other, hother, hid⟩ := h step (hperm.mem_iff.2 hstep) d hd
  exact ⟨other, hperm.mem_iff.1 hother, hid⟩

theorem Acyclic.perm (h : r.Acyclic) (hperm : r.steps.Perm r'.steps) : r'.Acyclic := by
  intro step hstep
  refine h step (hstep.lift id fun a b hab => ?_)
  exact ⟨hperm.mem_iff.2 hab.1, hperm.mem_iff.2 hab.2.1, hab.2.2⟩

theorem Known.unknownDependency? (h : r.Known) : r.unknownDependency? = none := by
  rw [Registry.unknownDependency?, List.findSome?_eq_none_iff]
  intro step hstep
  rw [Option.map_eq_none_iff, List.find?_eq_none]
  intro d hd
  obtain ⟨other, hother, hid⟩ := h step hstep d hd
  have hcontains : r.contains d = true := List.any_eq_true.2 ⟨other, hother, by simpa using hid⟩
  simp [hcontains]

/-- Steps ordered by what leads to them. Steps that lead to each other are not told apart. -/
@[reducible] def leadOrder (rel : Step → Step → Prop) : Preorder Step where
  le := Relation.ReflTransGen rel
  le_refl _ := .refl
  le_trans _ _ _ := .trans

/-- **Where each of some steps leads to one of them, each leads to one that leads to itself.** -/
theorem exists_cycle {rel : Step → Step → Prop} (hnext : ∀ a ∈ steps, ∃ b ∈ steps, rel a b) {a : Step}
    (ha : a ∈ steps) : ∃ c, Relation.ReflTransGen rel a c ∧ Relation.TransGen rel c c := by
  let _ : Preorder Step := leadOrder rel
  -- what a last step leads to leads back to it
  obtain ⟨c, hway, hlast⟩ := steps.finite_toSet.exists_le_maximal ha
  obtain ⟨b, hb, hrel⟩ := hnext c hlast.prop
  have hback : Relation.ReflTransGen rel b c := hlast.le_of_ge hb (.single hrel)
  exact ⟨c, hway, .head' hrel hback⟩

/-- **Among some steps there is one that needs none of them**, as long as no step needs
itself. -/
theorem Acyclic.exists_ready (h : r.Acyclic) (hne : steps ≠ []) :
    ∃ step ∈ steps, ∀ other ∈ steps, ¬r.Needs step other := by
  by_contra hnone
  obtain ⟨first, hfirst⟩ := List.exists_mem_of_ne_nil steps hne
  have hnext : ∀ step ∈ steps, ∃ other ∈ steps, r.Needs step other := by simpa using hnone
  obtain ⟨step, -, hstep⟩ := exists_cycle hnext hfirst
  exact h step hstep

/-- **Where dependencies are known and acyclic, there is a plan.** -/
theorem exists_plan (hk : r.Known) (ha : r.Acyclic) : ∃ plan, r.plan = .ok plan := by
  obtain ⟨placed, waiting, hplace⟩ : ∃ placed waiting,
      Order.place r.steps.length [] r.steps = (placed, waiting) := ⟨_, _, rfl⟩
  have hperm := Order.place_perm r.steps.length [] r.steps
  have hstuck := Order.place_stuck r.steps.length [] r.steps (Nat.le_refl _)
  rw [hplace] at hperm hstuck
  rw [List.nil_append] at hperm
  have hdone : waiting = [] := by
    by_contra hne
    obtain ⟨step, hstep, hfree⟩ := ha.exists_ready hne
    have hregistered : step ∈ r.steps := hperm.mem_iff.1 (List.mem_append_right _ hstep)
    obtain ⟨d, hd, hmissing⟩ := Order.isReady_eq_false.1 (hstuck step hstep)
    obtain ⟨other, hother, rfl⟩ := hk step hregistered d hd
    -- what the step is waiting for has not been placed, so it is waiting too
    rcases List.mem_append.1 (hperm.mem_iff.2 hother) with hplaced | hwaiting
    · exact hmissing other hplaced rfl
    · exact hfree other hwaiting ⟨hregistered, hother, hd⟩
  refine ⟨⟨placed⟩, ?_⟩
  unfold Registry.plan
  rw [hk.unknownDependency?, hplace, hdone]

end Registry

namespace Orchestrator

variable {r r' : Registry} {plan plan' : RunPlan}

/-- Which names a plan knows depends on its steps only, not on their order. -/
theorem get?_isNone_perm (hperm : plan.steps.Perm plan'.steps) (id : String) :
    (plan.get? id).isNone = (plan'.get? id).isNone := by
  rw [Bool.eq_iff_iff, Option.isNone_iff_eq_none, Option.isNone_iff_eq_none, RunPlan.get?, RunPlan.get?,
    List.find?_eq_none, List.find?_eq_none]
  simp only [hperm.mem_iff]

/-- A run has the plan of its registry, unless a step that is to be skipped is not in it. -/
theorem checkedPlan_of_plan {skip : List String} (hplan : r.plan = .ok plan) :
    checkedPlan r skip = (Text.least? (skip.filter fun id => (plan.get? id).isNone)).elim
      (.ok plan) fun id => .error (.unknownStep id) := by
  simp only [checkedPlan, hplan, bind, Except.bind]
  cases Text.least? (skip.filter fun id => (plan.get? id).isNone) <;> rfl

/-- **Whether a run has a plan does not depend on the order of registration**: either a step
that is to be skipped is not registered, or both have one, with the same steps. -/
theorem checkedPlan_perm (hk : r.Known) (ha : r.Acyclic) (hperm : r.steps.Perm r'.steps)
    (skip : List String) :
    (∃ id ∈ skip, (∀ step ∈ r.steps, step.id ≠ id) ∧ checkedPlan r skip = .error (.unknownStep id) ∧
      checkedPlan r' skip = .error (.unknownStep id)) ∨
    ∃ plan plan', checkedPlan r skip = .ok plan ∧ checkedPlan r' skip = .ok plan' ∧
      plan.steps.Perm plan'.steps := by
  obtain ⟨plan, hplan⟩ := Registry.exists_plan hk ha
  obtain ⟨plan', hplan'⟩ := Registry.exists_plan (hk.perm hperm) (ha.perm hperm)
  have hsteps : plan.steps.Perm plan'.steps :=
    (Registry.plan_perm hplan).trans (hperm.trans (Registry.plan_perm hplan').symm)
  have hunknown : (skip.filter fun id => (plan'.get? id).isNone) =
      skip.filter fun id => (plan.get? id).isNone :=
    List.filter_congr fun id _ => (get?_isNone_perm hsteps id).symm
  rw [checkedPlan_of_plan hplan, checkedPlan_of_plan hplan', hunknown]
  cases hleast : Text.least? (skip.filter fun id => (plan.get? id).isNone) with
  | none => exact .inr ⟨plan, plan', rfl, rfl, hsteps⟩
  | some id =>
    obtain ⟨hskip, hunregistered⟩ := List.mem_filter.1 (Text.mem_of_least? hleast)
    refine .inl ⟨id, hskip, fun step hstep => ?_, rfl, rfl⟩
    rw [Option.isNone_iff_eq_none, RunPlan.get?, List.find?_eq_none] at hunregistered
    simpa using hunregistered step ((Registry.plan_perm hplan).mem_iff.2 hstep)

end Orchestrator

end Provision
