import Provision.Proofs.Run.Ordering

/-!
# The plan is the least order

Among the steps that are ready the one registered first is placed, so no order in turn has an
earlier step where it first differs from the plan.

* `Registry.places`: where the steps of an order were registered.
* `Order.place_least`: **what placing comes to is the least order in turn**, place by place.
* `Step.Restates`: a step depends on the same steps, in whatever order and however often it names
  them.
* `Built.plan_restated`: restating dependencies changes neither the plan nor the cycle that is
  reported.
* `Built.planByCounting_least`: both, for the order that is found by counting.
-/

namespace Provision

/-- A step says the same as another one: it depends on the same steps, in whatever order and
however often it names them. -/
structure Step.Restates (a b : Step) : Prop where
  id_eq : a.id = b.id
  action_eq : a.action = b.action
  mem_iff : ∀ d, d ∈ a.dependsOn ↔ d ∈ b.dependsOn

/-- Restating some steps can be taken for restating all, as what becomes of the others does not
matter. -/
theorem Step.exists_restates {f : Step → Step} {steps : List Step}
    (hf : ∀ step ∈ steps, (f step).Restates step) :
    ∃ g : Step → Step, (∀ step, (g step).Restates step) ∧ ∀ step ∈ steps, f step = g step := by
  refine ⟨fun step => if step ∈ steps then f step else step, fun step => ?_,
    fun step hmem => (if_pos hmem).symm⟩
  dsimp only
  split
  · rename_i hmem
    exact hf step hmem
  · exact ⟨rfl, rfl, fun _ => Iff.rfl⟩

/-- Where the steps of an order were registered. -/
def Registry.places (r : Registry) (order : List Step) : List Nat := order.map (r.steps.idxOf ·)

namespace Order

variable {r : Registry} {placed waiting rest chosen steps : List Step} {step other : Step} {n : Nat}

/-! ### The least order -/

/-- What is ready and waits is the step that is placed next, or was registered after it. -/
theorem idxOf_of_find? (hnodup : r.steps.Nodup) (hsub : waiting.Sublist r.steps)
    (hfind : waiting.find? (isReady placed) = some step) (hother : other ∈ waiting)
    (hready : isReady placed other = true) :
    other = step ∨ r.steps.idxOf step < r.steps.idxOf other := by
  have hsorted : waiting.Pairwise fun a b => r.steps.idxOf a < r.steps.idxOf b := by
    refine List.Pairwise.sublist hsub (List.pairwise_iff_getElem.2 fun i j hi hj hij => ?_)
    rwa [hnodup.idxOf_getElem i hi, hnodup.idxOf_getElem j hj]
  obtain ⟨-, before, after, rfl, hbefore⟩ := List.find?_eq_some_iff_append.1 hfind
  rcases List.mem_append.1 hother with hmem | hmem
  · have hnot := hbefore other hmem
    rw [hready] at hnot
    cases hnot
  · rcases List.mem_cons.1 hmem with rfl | hafter
    · exact .inl rfl
    · exact .inr ((List.pairwise_cons.1 (List.pairwise_append.1 hsorted).2.1).1 other hafter)

/-- The step that comes next in turn is ready. -/
theorem InTurn.isReady_next (h : InTurn (placed ++ step :: rest)) : isReady placed step = true := by
  refine List.all_eq_true.2 fun d hd => ?_
  obtain ⟨other, hother, hid⟩ := h placed step rest rfl d hd
  exact List.any_eq_true.2 ⟨other, hother, by simpa using hid⟩

/-- Placing goes on from what has been placed. -/
theorem place_append (n : Nat) : ∀ placed waiting : List Step,
    ∃ more, (place n placed waiting).1 = placed ++ more := by
  induction n with
  | zero => exact fun placed _ => ⟨[], (List.append_nil placed).symm⟩
  | succ n ih =>
    intro placed waiting
    unfold place
    cases waiting.find? (isReady placed) with
    | none => exact ⟨[], (List.append_nil placed).symm⟩
    | some step =>
      obtain ⟨more, hmore⟩ := ih (placed ++ [step]) (waiting.erase step)
      exact ⟨step :: more, by rw [hmore, List.append_assoc]; rfl⟩

/-- **What placing comes to is the least order in turn**: any other one has, where it first differs,
a step that was registered later. -/
theorem place_least (hnodup : r.steps.Nodup) (n : Nat) : ∀ placed waiting chosen rest : List Step,
    waiting.Sublist r.steps → place n placed waiting = (placed ++ chosen, []) →
    rest.Perm waiting → InTurn (placed ++ rest) →
    rest = chosen ∨ List.Lex (· < ·) (r.places chosen) (r.places rest) := by
  induction n with
  | zero =>
    intro placed waiting chosen rest _ hplace hperm _
    obtain ⟨hchosen, rfl⟩ := Prod.mk.inj hplace
    rw [hperm.eq_nil]
    exact .inl (List.append_cancel_left ((List.append_nil placed).trans hchosen))
  | succ n ih =>
    intro placed waiting chosen rest hsub hplace hperm hturn
    unfold place at hplace
    cases rest with
    | nil =>
      obtain rfl : waiting = [] := hperm.nil_eq.symm
      obtain ⟨hchosen, -⟩ := Prod.mk.inj hplace
      exact .inl (List.append_cancel_left ((List.append_nil placed).trans hchosen))
    | cons next rest =>
      have hmem : next ∈ waiting := hperm.subset List.mem_cons_self
      cases hfind : waiting.find? (isReady placed) with
      | none => exact absurd hturn.isReady_next (List.find?_eq_none.1 hfind next hmem)
      | some step =>
        rw [hfind] at hplace
        dsimp only at hplace
        -- the step that is placed is the next one of the order, or it was registered earlier
        obtain ⟨more, hmore⟩ := place_append n (placed ++ [step]) (waiting.erase step)
        obtain rfl : chosen = step :: more := by
          rw [hplace, List.append_assoc] at hmore
          exact List.append_cancel_left hmore
        rcases idxOf_of_find? hnodup hsub hfind hmem hturn.isReady_next with rfl | hlt
        · have hnext := ih (placed ++ [next]) (waiting.erase next) more rest
            (List.erase_sublist.trans hsub) (by rw [List.append_assoc]; exact hplace)
            (hperm.trans (List.perm_cons_erase hmem)).cons_inv (by rwa [List.append_assoc])
          exact hnext.imp (congrArg _) List.Lex.cons
        · exact .inr (.rel hlt)

/-! ### Restated dependencies -/

variable {f : Step → Step}

theorem isReady_restated (hf : ∀ step, (f step).Restates step) (placed : List Step) (step : Step) :
    isReady (placed.map f) (f step) = isReady placed step := by
  have hplaced : ∀ d, ((placed.map f).any (·.id = d)) = placed.any (·.id = d) := fun d => by
    simp only [List.any_map, Function.comp_def, (hf _).id_eq]
  rw [Bool.eq_iff_iff, isReady, isReady, List.all_eq_true, List.all_eq_true]
  simp only [hplaced, (hf step).mem_iff]

theorem isNeeded_restated (hf : ∀ step, (f step).Restates step) (steps : List Step) (step : Step) :
    isNeeded (steps.map f) (f step) = isNeeded steps step := by
  rw [Bool.eq_iff_iff, isNeeded, isNeeded, List.any_map, List.any_eq_true, List.any_eq_true]
  simp only [Function.comp_apply, List.contains_iff_mem, (hf _).mem_iff, (hf step).id_eq]

/-- Steps are placed alike however they state what they depend on. -/
theorem place_restated (hf : ∀ step, (f step).Restates step) (n : Nat) : ∀ placed waiting : List Step,
    (waiting.map (·.id)).Nodup → place n (placed.map f) (waiting.map f) =
      ((place n placed waiting).1.map f, (place n placed waiting).2.map f) := by
  induction n with
  | zero => exact fun _ _ _ => rfl
  | succ n ih =>
    intro placed waiting hids
    have hfind : (waiting.map f).find? (isReady (placed.map f)) =
        (waiting.find? (isReady placed)).map f := by
      rw [List.find?_map]
      exact congrArg _ (congrArg (List.find? · waiting) (funext (isReady_restated hf placed)))
    unfold place
    rw [hfind]
    cases hstep : waiting.find? (isReady placed) with
    | none => rfl
    | some step =>
      -- steps of different names stay different
      have herase : (waiting.map f).erase (f step) = (waiting.erase step).map f := by
        have hmem := List.mem_of_find?_eq_some hstep
        have hinj : ∀ a ∈ waiting, f a = f step → a = step := fun a ha heq => by
          refine List.inj_on_of_nodup_map hids ha hmem ?_
          rw [← (hf a).id_eq, ← (hf step).id_eq, heq]
        have hids' : (waiting.map f).Nodup := by
          refine List.Nodup.of_map (·.id) ?_
          simpa only [List.map_map, Function.comp_def, (hf _).id_eq] using hids
        rw [hids'.erase_eq_filter, hids.of_map.erase_eq_filter, List.filter_map]
        refine congrArg _ (List.filter_congr fun a ha => ?_)
        by_cases heq : a = step
        · simp [heq]
        · simp [bne, heq, mt (hinj a ha) heq]
      have hnext := ih (placed ++ [step]) (waiting.erase step)
        (List.Nodup.sublist (List.erase_sublist.map _) hids)
      rw [List.map_append, List.map_singleton] at hnext
      dsimp only [Option.map_some]
      rw [herase, hnext]

theorem prune_restated (hf : ∀ step, (f step).Restates step) (n : Nat) : ∀ steps : List Step,
    prune n (steps.map f) = (prune n steps).map f := by
  induction n with
  | zero => exact fun _ => rfl
  | succ n ih =>
    intro steps
    have hround : (steps.map f).filter (isNeeded (steps.map f)) = (steps.filter (isNeeded steps)).map f := by
      rw [List.filter_map]
      exact congrArg _ (congrArg (List.filter · steps) (funext (isNeeded_restated hf steps)))
    unfold prune
    rw [hround, ih]

end Order

namespace Registry

variable {r r' : Registry} {f : Step → Step}

/-- A restated step can be registered where the step can that it restates. -/
theorem register_restated (hf : ∀ step, (f step).Restates step) {step : Step}
    (h : r.register step = .ok r') : register ⟨r.steps.map f⟩ (f step) = .ok ⟨r'.steps.map f⟩ := by
  have hcontains : contains ⟨r.steps.map f⟩ (f step).id = r.contains step.id := by
    simp only [contains, List.any_map, Function.comp_def, (hf _).id_eq]
  have hrival : ∀ target, rival? ⟨r.steps.map f⟩ target = (r.rival? target).map f := fun target => by
    simp only [rival?, List.find?_map, Function.comp_def, (hf _).action_eq]
  obtain ⟨-, hsteps⟩ := register_eq h
  unfold register at h ⊢
  rw [hcontains, (hf step).action_eq]
  split at h
  · cases h
  · rename_i hnew
    rw [if_neg hnew, hsteps, List.map_append, List.map_singleton]
    split at h
    · rfl
    · rename_i target _
      dsimp only
      rw [hrival]
      split at h
      · cases h
      · rename_i hnone
        rw [hnone]
        rfl

/-- Restated steps can be registered like those that they restate. -/
theorem Built.restated (h : r.Built) (hf : ∀ step, (f step).Restates step) : Built ⟨r.steps.map f⟩ := by
  induction h with
  | empty => exact .empty
  | register _ hr ih => exact ih.register (register_restated hf hr)

theorem Known.restated (h : r.Known) (hf : ∀ step, (f step).Restates step) : Known ⟨r.steps.map f⟩ := by
  intro step hstep d hd
  obtain ⟨old, hold, rfl⟩ := List.mem_map.1 hstep
  obtain ⟨other, hother, hid⟩ := h old hold d (((hf old).mem_iff d).1 hd)
  exact ⟨f other, List.mem_map_of_mem hother, (hf other).id_eq.trans hid⟩

/-- **Restating dependencies changes neither the plan nor the cycle that is reported**, where they are
known. -/
theorem Built.plan_restated (h : r.Built) (hk : r.Known) (hf : ∀ step, (f step).Restates step) :
    Registry.plan ⟨r.steps.map f⟩ = r.plan.map fun plan => ⟨plan.steps.map f⟩ := by
  have hplace := Order.place_restated hf r.steps.length [] r.steps h.nodup
  unfold Registry.plan
  rw [hk.unknownDependency?, (hk.restated hf).unknownDependency?, List.length_map]
  dsimp only
  rw [List.map_nil] at hplace
  rw [hplace]
  rcases Order.place r.steps.length [] r.steps with ⟨placed, _ | ⟨step, rest⟩⟩
  · rfl
  · have hids : ∀ steps : List Step, (steps.map f).map (·.id) = steps.map (·.id) := fun steps => by
      simp only [List.map_map, Function.comp_def, (hf _).id_eq]
    have hprune := Order.prune_restated hf (rest.length + 1) (step :: rest)
    rw [List.map_cons] at hprune
    simp only [List.map_cons, List.length_cons, List.length_map, hprune, hids]
    rfl

/-- **The plan is the least order.** Where dependencies are known and no step needs itself, there is
a plan, and among all orders in which each step comes after those it depends on it is the least one,
compared by where the steps were registered. So it does not matter in which order a step names what
it depends on, or how often. -/
theorem Built.planByCounting_least (h : r.Built) (hk : r.Known) (ha : r.Acyclic) :
    ∃ plan, r.planByCounting = .ok plan ∧ plan.steps.Perm r.steps ∧ Order.InTurn plan.steps ∧
      (∀ order : List Step, order.Perm r.steps → Order.InTurn order →
        order = plan.steps ∨ List.Lex (· < ·) (r.places plan.steps) (r.places order)) ∧
      ∀ f : Step → Step, (∀ step ∈ r.steps, (f step).Restates step) →
        Registry.planByCounting ⟨r.steps.map f⟩ = .ok ⟨plan.steps.map f⟩ := by
  obtain ⟨plan, hplan⟩ := exists_plan hk ha
  refine ⟨plan, by rw [h.planByCounting_eq, hplan]; rfl, plan_perm hplan, plan_inTurn hplan,
    fun order hperm hturn => ?_, fun f hf => ?_⟩
  · exact Order.place_least h.nodup.of_map _ [] r.steps plan.steps order (.refl _)
      (place_of_plan hplan) hperm hturn
  · obtain ⟨g, hg, hsame⟩ := Step.exists_restates hf
    have hmap : ∀ steps : List Step, (∀ step ∈ steps, step ∈ r.steps) → steps.map f = steps.map g :=
      fun steps hsteps => List.map_congr_left fun step hmem => hsame step (hsteps step hmem)
    rw [hmap r.steps fun _ hmem => hmem, hmap plan.steps fun _ hmem => (plan_perm hplan).subset hmem,
      (h.restated hg).planByCounting_eq, h.plan_restated hk hg, hplan]
    rfl

/-- A step that was registered before the two it depends on. -/
def tied : Registry where
  steps := [⟨"web", ["share", "data"], .service { name := "web" }⟩,
    ⟨"share", [], .service { name := "share" }⟩, ⟨"data", [], .service { name := "data" }⟩]

/-- The step with what it depends on named twice, once the other way round. -/
def twiceOver (step : Step) : Step :=
  { step with dependsOn := step.dependsOn.reverse ++ step.dependsOn }

/-- Another order in turn, which places first what was registered last. -/
def tiedBackwards : List Step := [tied.stepAt 2, tied.stepAt 1, tied.stepAt 0]

theorem planByCounting_least_tied : ∃ plan, tied.planByCounting = .ok plan ∧
    tied.places plan.steps = [1, 2, 0] ∧ tied.places tiedBackwards = [2, 1, 0] ∧
    List.Lex (· < ·) (tied.places plan.steps) (tied.places tiedBackwards) ∧
    Registry.planByCounting ⟨tied.steps.map twiceOver⟩ = .ok ⟨plan.steps.map twiceOver⟩ := by
  have hbuilt : tied.Built :=
    built_ofPlanFile (show ofPlanFile ⟨1, none, tied.steps⟩ = .ok tied from rfl)
  have hacyclic : tied.Acyclic := by
    refine acyclic_of_rank (fun step => step.dependsOn.length) ?_
    rintro a b ⟨ha, hb, hd⟩
    simp only [tied, List.mem_cons, List.not_mem_nil, or_false] at ha hb
    rcases ha with rfl | rfl | rfl <;> rcases hb with rfl | rfl | rfl <;> simp_all
  have hturn : Order.InTurn tiedBackwards := by
    have hfirst : Order.InTurn [tied.stepAt 2] := Order.InTurn.nil.snoc (by decide)
    have hsecond : Order.InTurn [tied.stepAt 2, tied.stepAt 1] := hfirst.snoc (by decide)
    exact hsecond.snoc (by decide)
  obtain ⟨plan, hplan, -, -, hleast, hrestated⟩ :=
    Built.planByCounting_least hbuilt (by unfold Known; decide) hacyclic
  obtain rfl : plan = ⟨[tied.stepAt 1, tied.stepAt 2, tied.stepAt 0]⟩ :=
    Except.ok.inj (hplan.symm.trans (by rfl))
  refine ⟨_, hplan, by decide, by decide, ?_, ?_⟩
  · exact (hleast tiedBackwards (by decide) hturn).resolve_left (by decide)
  · exact hrestated twiceOver fun step _ => ⟨rfl, rfl, fun d => by simp [twiceOver]⟩

end Registry

end Provision
