import Provision.Proofs.Run.Ordering

/-!
# Which steps a cycle is reported to have

Placing leaves over the steps that wait for a cycle, and pruning takes away those that no cycle
waits for. What is left lies on a cycle, or between two.

* `Registry.OnCycle`, `Registry.Linked`: a step needs itself; a step needs one that does, and is
  needed by one that does.
* `Built.not_onCycle`: a step that has been placed is on no cycle.
* `Built.mem_prune_leftWaiting`: **the steps that are left are those that are linked to cycles on both
  sides.**
* `Built.planByCounting_cycle`: so the steps that are reported are those on a cycle, unless there is
  one between two cycles.
* `planByCounting_names_between`: which is reported, too.
-/

namespace Provision

namespace Order

/-- Placing leaves over steps in the order in which they waited. -/
theorem place_sublist (n : Nat) : ∀ placed waiting : List Step,
    (place n placed waiting).2.Sublist waiting := by
  induction n with
  | zero => exact fun _ _ => .refl _
  | succ n ih =>
    intro placed waiting
    unfold place
    cases waiting.find? (isReady placed) with
    | none => exact .refl _
    | some step => exact (ih _ _).trans List.erase_sublist

end Order

namespace Registry

open Countdown (Stop)

variable {r : Registry} {placed : List Step} {step other : Step} {ids : List String}

/-- A step needs itself, be it through others. -/
def OnCycle (r : Registry) (step : Step) : Prop := Relation.TransGen r.Needs step step

/-- A step is on a cycle or needs one that is, be it through others, and one on a cycle needs it. -/
def Linked (r : Registry) (step : Step) : Prop :=
  (∃ last, r.OnCycle last ∧ Relation.ReflTransGen r.Needs step last) ∧
    ∃ first, r.OnCycle first ∧ Relation.ReflTransGen r.Needs first step

theorem OnCycle.linked (h : r.OnCycle step) : r.Linked step := ⟨⟨step, h, .refl⟩, step, h, .refl⟩

/-- What is linked needs something. -/
theorem Linked.needs (h : r.Linked step) : ∃ other, r.Needs step other := by
  obtain ⟨⟨last, hlast, hstep⟩, -⟩ := h
  rcases Relation.ReflTransGen.cases_head hstep with rfl | ⟨next, hneeds, -⟩
  · obtain ⟨next, hneeds, -⟩ := Relation.TransGen.head'_iff.1 hlast
    exact ⟨next, hneeds⟩
  · exact ⟨next, hneeds⟩

/-- Only registered steps are linked. -/
theorem Linked.mem (h : r.Linked step) : step ∈ r.steps := h.needs.elim fun _ hneeds => hneeds.1

/-- What is linked is needed by something linked. -/
theorem Linked.needed (h : r.Linked step) : ∃ other, r.Linked other ∧ r.Needs other step := by
  obtain ⟨⟨last, hlast, hstep⟩, first, hfirst, hreach⟩ := h
  -- the last step on the way from the cycle
  obtain ⟨other, hother, hneeds⟩ : ∃ other, Relation.ReflTransGen r.Needs first other ∧
      r.Needs other step := by
    rcases Relation.ReflTransGen.cases_tail hreach with rfl | hway
    · exact Relation.TransGen.tail'_iff.1 hfirst
    · exact hway
  exact ⟨other, ⟨⟨last, hlast, hstep.head hneeds⟩, first, hfirst, hother⟩, hneeds⟩

section Placed

variable (hr : r.Built) (hturn : Order.InTurn placed) (hsub : ∀ step ∈ placed, step ∈ r.steps)
  (hids : (placed.map (·.id)).Nodup)
include hr hturn hsub

/-- What a step in turn needs has been placed. -/
theorem Built.mem_of_needs (hstep : step ∈ placed) (hneeds : r.Needs step other) : other ∈ placed := by
  obtain ⟨before, after, rfl⟩ := List.append_of_mem hstep
  obtain ⟨same, hsame, hid⟩ := hturn before step after rfl other.id hneeds.2.2
  have hmem : same ∈ before ++ step :: after := List.mem_append_left _ hsame
  rwa [← List.inj_on_of_nodup_map hr.nodup (hsub same hmem) hneeds.2.1 hid]

theorem Built.mem_of_reach (hstep : step ∈ placed) (hreach : Relation.ReflTransGen r.Needs step other) :
    other ∈ placed := by
  induction hreach with
  | refl => exact hstep
  | tail _ hneeds ih => exact hr.mem_of_needs hturn hsub ih hneeds

include hids

/-- A step that has been placed is on no cycle. -/
theorem Built.not_onCycle (hstep : step ∈ placed) : ¬r.OnCycle step := by
  intro hcycle
  have hdown : ∀ {last}, Relation.TransGen r.Needs step last → placed.idxOf last < placed.idxOf step := by
    intro last hlast
    induction hlast with
    | single hneeds =>
      exact hturn.idxOf_lt hids hstep (hr.mem_of_needs hturn hsub hstep hneeds) hneeds.2.2
    | tail hway hneeds ih =>
      have hmem := hr.mem_of_reach hturn hsub hstep hway.to_reflTransGen
      exact (hturn.idxOf_lt hids hmem (hr.mem_of_needs hturn hsub hmem hneeds) hneeds.2.2).trans ih
  exact lt_irrefl _ (hdown hcycle)

end Placed

section Waiting

/-- The steps that are left over when placing ends. -/
def leftWaiting (r : Registry) : List Step := (Order.place r.steps.length [] r.steps).2

theorem leftWaiting_sublist (r : Registry) : r.leftWaiting.Sublist r.steps :=
  Order.place_sublist _ _ _

/-- Where there is no plan the steps are reported that are left when those left over are pruned. -/
theorem cycle_of_plan (hk : r.Known) (h : r.plan = .error (.cycle ids)) :
    ids = (Order.prune r.leftWaiting.length r.leftWaiting).map (·.id) := by
  unfold Registry.plan at h
  rw [hk.unknownDependency?] at h
  dsimp only at h
  split at h
  · cases h
  · rename_i placed waiting _ hplace
    rw [leftWaiting, hplace]
    exact (RunError.cycle.inj (Except.error.inj h)).symm

/-- A step that is left over waits for another one that is. -/
theorem needs_leftWaiting (hk : r.Known) (hstep : step ∈ r.leftWaiting) :
    ∃ other ∈ r.leftWaiting, r.Needs step other := by
  have hmem : step ∈ r.steps := r.leftWaiting_sublist.subset hstep
  have hstuck := Order.place_stuck r.steps.length [] r.steps (Nat.le_refl _) step hstep
  obtain ⟨d, hd, hmissing⟩ := Order.isReady_eq_false.1 hstuck
  obtain ⟨other, hother, rfl⟩ := hk step hmem d hd
  have hperm := Order.place_perm r.steps.length [] r.steps
  rcases List.mem_append.1 (hperm.mem_iff.2 hother) with hplaced | hwaiting
  · exact absurd rfl (hmissing other hplaced)
  · exact ⟨other, hwaiting, hmem, hother, hd⟩

/-- A linked step is left over: it waits for a cycle. -/
theorem Built.mem_leftWaiting (hr : r.Built) (h : r.Linked step) : step ∈ r.leftWaiting := by
  have hperm := Order.place_perm r.steps.length [] r.steps
  have hturn := Order.place_inTurn r.steps.length [] r.steps .nil
  rw [List.nil_append] at hperm
  have hsub : ∀ other ∈ (Order.place r.steps.length [] r.steps).1, other ∈ r.steps :=
    fun other hother => hperm.mem_iff.1 (List.mem_append_left _ hother)
  have hids : ((Order.place r.steps.length [] r.steps).1.map (·.id)).Nodup := by
    have hall := (hperm.map (·.id)).nodup_iff.2 hr.nodup
    rw [List.map_append] at hall
    exact (List.nodup_append.1 hall).1
  rcases List.mem_append.1 (hperm.mem_iff.2 h.mem) with hplaced | hwaiting
  · obtain ⟨⟨last, hlast, hstep⟩, -⟩ := h
    exact absurd hlast (hr.not_onCycle hturn hsub hids
      (hr.mem_of_reach hturn hsub hplaced hstep))
  · exact hwaiting

/-- **The steps that are left when those left over are pruned are those that are linked to cycles on
both sides.** -/
theorem Built.mem_prune_leftWaiting (hr : r.Built) (hk : r.Known) :
    step ∈ Order.prune r.leftWaiting.length r.leftWaiting ↔ r.Linked step := by
  have hpruned := Order.prune_sublist r.leftWaiting.length r.leftWaiting
  constructor
  · intro hstep
    constructor
    · -- what is left over always waits for something left over
      have hneeds : ∀ a ∈ r.leftWaiting, ∃ b ∈ r.leftWaiting, r.Needs a b :=
        fun _ => needs_leftWaiting hk
      obtain ⟨last, hway, hlast⟩ := exists_cycle hneeds (hpruned.subset hstep)
      exact ⟨last, hlast, hway⟩
    · -- what is left after pruning is always needed by something left after pruning
      have hneeded : ∀ a ∈ Order.prune r.leftWaiting.length r.leftWaiting,
          ∃ b ∈ Order.prune r.leftWaiting.length r.leftWaiting, Function.swap r.Needs a b := by
        intro a ha
        obtain ⟨b, hb, hid⟩ := List.any_eq_true.1 (Order.closed_prune _ (Nat.le_refl _) a ha)
        have hregistered : ∀ c ∈ Order.prune r.leftWaiting.length r.leftWaiting, c ∈ r.steps :=
          fun c hc => r.leftWaiting_sublist.subset (hpruned.subset hc)
        exact ⟨b, hb, hregistered b hb, hregistered a ha, by simpa using hid⟩
      obtain ⟨first, hway, hfirst⟩ := exists_cycle hneeded hstep
      exact ⟨first, Relation.transGen_swap.1 hfirst, Relation.reflTransGen_swap.1 hway⟩
  · intro hstep
    classical
    -- the linked steps need each other, so pruning keeps them
    have hclosed : Order.Closed (r.leftWaiting.filter fun s => r.Linked s) := by
      intro a ha
      have hlinked : r.Linked a := by simpa using (List.mem_filter.1 ha).2
      obtain ⟨b, hb, hneeds⟩ := hlinked.needed
      exact List.any_eq_true.2 ⟨b, List.mem_filter.2 ⟨hr.mem_leftWaiting hb, by simpa using hb⟩,
        by simpa using hneeds.2.2⟩
    exact (hclosed.sublist_prune _ List.filter_sublist).subset
      (List.mem_filter.2 ⟨hr.mem_leftWaiting hstep, by simpa using hstep⟩)

end Waiting

/-- **The steps that are reported where there is a cycle** are, each once and in the order in which
they were registered, those on a cycle and those between two cycles. So they are the steps on a cycle
if and only if no other step is between two. -/
theorem Built.planByCounting_cycle (h : r.Built) (hk : r.Known) (hcyclic : ¬r.Acyclic) :
    ∃ ids, r.planByCounting = .error (.refused (.cycle ids)) ∧ ids.Sublist (r.steps.map (·.id)) ∧
      ids.Nodup ∧ (∀ step ∈ r.steps, step.id ∈ ids ↔ r.Linked step) ∧
      ((∀ step ∈ r.steps, step.id ∈ ids ↔ r.OnCycle step) ↔
        ∀ step, r.Linked step → r.OnCycle step) := by
  obtain ⟨ids, hplan⟩ : ∃ ids, r.plan = .error (.cycle ids) :=
    hk.plan_or_cycle.resolve_left fun ⟨plan, hplan⟩ => hcyclic (h.acyclic_of_plan hplan)
  have hids := cycle_of_plan hk hplan
  have hsub : ids.Sublist (r.steps.map (·.id)) :=
    hids ▸ ((Order.prune_sublist _ _).trans r.leftWaiting_sublist).map _
  have hlinked : ∀ step ∈ r.steps, step.id ∈ ids ↔ r.Linked step := by
    intro step hstep
    rw [hids, List.mem_map, ← h.mem_prune_leftWaiting hk]
    constructor
    · rintro ⟨same, hsame, hid⟩
      have hmem := r.leftWaiting_sublist.subset ((Order.prune_sublist _ _).subset hsame)
      rwa [← List.inj_on_of_nodup_map h.nodup hmem hstep hid]
    · exact fun hmem => ⟨step, hmem, rfl⟩
  refine ⟨ids, by rw [h.planByCounting_eq, hplan]; rfl, hsub, h.nodup.sublist hsub, hlinked,
    fun hall step hstep => ?_, fun hall step hstep => ?_⟩
  · exact (hall step hstep.mem).1 ((hlinked step hstep.mem).2 hstep)
  · rw [hlinked step hstep]
    exact ⟨hall step, OnCycle.linked⟩

/-- A cycle of two steps, a step that it waits for, and a step that waits for it. -/
def fringed : Registry where
  steps := [⟨"base", [], .service { name := "base" }⟩,
    ⟨"share", ["data", "base"], .service { name := "share" }⟩,
    ⟨"data", ["share"], .service { name := "data" }⟩, ⟨"web", ["share"], .service { name := "web" }⟩]

theorem planByCounting_cycle_fringed :
    fringed.planByCounting = .error (.refused (.cycle ["share", "data"])) ∧
    ∀ step ∈ fringed.steps, step.id ∈ ["share", "data"] ↔ fringed.OnCycle step := by
  have hbuilt : fringed.Built :=
    built_ofPlanFile (show ofPlanFile ⟨1, none, fringed.steps⟩ = .ok fringed from rfl)
  have hround : fringed.Needs (fringed.stepAt 1) (fringed.stepAt 2) ∧
      fringed.Needs (fringed.stepAt 2) (fringed.stepAt 1) := by unfold Needs; decide
  have hshare : fringed.OnCycle (fringed.stepAt 1) := .tail (.single hround.1) hround.2
  have hdata : fringed.OnCycle (fringed.stepAt 2) := .tail (.single hround.2) hround.1
  obtain ⟨ids, hplan, -, -, -, hexact⟩ := Built.planByCounting_cycle hbuilt (by unfold Known; decide)
    fun hacyclic => hacyclic _ hshare
  obtain rfl : ids = ["share", "data"] :=
    RunError.cycle.inj (Stop.refused.inj (Except.error.inj (hplan.symm.trans (by rfl))))
  refine ⟨hplan, hexact.2 fun step hlinked => ?_⟩
  -- the first step needs nothing, and nothing needs the last one
  obtain ⟨other, -, hneeded⟩ := hlinked.needed
  obtain ⟨next, hneeds⟩ := hlinked.needs
  have hmem := hlinked.mem
  simp only [fringed, List.mem_cons, List.not_mem_nil, or_false] at hmem
  obtain rfl | rfl | rfl | rfl := hmem
  · exact absurd hneeds.2.2 List.not_mem_nil
  · exact hshare
  · exact hdata
  · have hnone : ∀ other ∈ fringed.steps, "web" ∉ other.dependsOn := by decide
    exact absurd hneeded.2.2 (hnone other hneeded.1)

/-- Two cycles of two steps each, and a step that waits for the first one while the second one waits
for it. -/
def chained : Registry where
  steps := [⟨"share", ["data"], .service { name := "share" }⟩,
    ⟨"data", ["share"], .service { name := "data" }⟩, ⟨"web", ["share"], .service { name := "web" }⟩,
    ⟨"proxy", ["web", "cache"], .service { name := "proxy" }⟩,
    ⟨"cache", ["proxy"], .service { name := "cache" }⟩]

/-- The step between the two cycles is reported like those on them, though it is on none. -/
theorem planByCounting_names_between : chained.Built ∧ chained.Known ∧
    chained.planByCounting =
      .error (.refused (.cycle ["share", "data", "web", "proxy", "cache"])) ∧
    chained.stepAt 2 ∈ chained.steps ∧ (chained.stepAt 2).id = "web" ∧
    ¬chained.OnCycle (chained.stepAt 2) := by
  refine ⟨built_ofPlanFile (show ofPlanFile ⟨1, none, chained.steps⟩ = .ok chained from rfl),
    by unfold Known; decide, rfl, by decide, rfl, fun hcycle => ?_⟩
  -- what it needs, be it through others, is on the first cycle
  have hdown : ∀ step, Relation.TransGen chained.Needs (chained.stepAt 2) step →
      step.id = "share" ∨ step.id = "data" := by
    have hnext : ∀ a ∈ chained.steps, a.id = "web" ∨ a.id = "share" ∨ a.id = "data" →
        ∀ d ∈ a.dependsOn, d = "share" ∨ d = "data" := by decide
    intro step hway
    induction hway with
    | single hneeds => exact hnext _ hneeds.1 (.inl rfl) _ hneeds.2.2
    | tail _ hneeds ih => exact hnext _ hneeds.1 (.inr ih) _ hneeds.2.2
  exact absurd (hdown _ hcycle) (by decide)

end Registry

end Provision
