import Provision.Proofs.Run.Countdown

/-!
# What ordering answers

* `Order.InTurn`: each step comes after all it depends on.
* `Order.place_inTurn`: placing only steps that are ready keeps steps in turn.
* `Built.acyclic_of_plan`: where there is a plan, no step needs itself.
* `Built.planByCounting_spec`: **an unknown dependency is reported if and only if there is one;
  otherwise a cycle if and only if there is one; otherwise every step is placed once, in turn.**
-/

namespace Provision

namespace Order

/-- Each step comes after all it depends on. -/
def InTurn (steps : List Step) : Prop :=
  ∀ before step after, steps = before ++ step :: after →
    ∀ d ∈ step.dependsOn, ∃ other ∈ before, other.id = d

variable {placed waiting : List Step} {step : Step}

theorem InTurn.nil : InTurn [] := by
  intro before step after h
  simp at h

/-- A step that is ready comes in turn. -/
theorem InTurn.snoc (h : InTurn placed) (hready : isReady placed step = true) :
    InTurn (placed ++ [step]) := by
  intro before next after heq d hd
  rcases List.eq_nil_or_concat after with rfl | ⟨after', last, rfl⟩
  · obtain ⟨rfl, rfl⟩ : placed = before ∧ step = next := by simpa using List.append_inj' heq rfl
    have hall := List.all_eq_true.1 hready d hd
    simpa using hall
  · have hinner : placed = before ++ next :: after' := by
      rw [List.concat_eq_append, ← List.cons_append, ← List.append_assoc] at heq
      exact (List.append_inj' heq rfl).1
    exact h before next after' hinner d hd

/-- Placing keeps steps in turn. -/
theorem place_inTurn (n : Nat) : ∀ placed waiting : List Step, InTurn placed →
    InTurn (place n placed waiting).1 := by
  induction n with
  | zero => exact fun _ _ h => h
  | succ n ih =>
    intro placed waiting h
    unfold place
    cases hfind : waiting.find? (isReady placed) with
    | none => exact h
    | some step => exact ih _ _ (h.snoc (List.find?_some hfind))

/-- What a step in turn depends on has a place before its own. -/
theorem InTurn.idxOf_lt {steps : List Step} (h : InTurn steps) (hids : (steps.map (·.id)).Nodup)
    {a b : Step} (ha : a ∈ steps) (hb : b ∈ steps) (hdep : b.id ∈ a.dependsOn) :
    steps.idxOf b < steps.idxOf a := by
  obtain ⟨before, after, rfl⟩ := List.append_of_mem ha
  obtain ⟨other, hother, hid⟩ := h before a after rfl b.id hdep
  obtain rfl : other = b :=
    List.inj_on_of_nodup_map hids (List.mem_append_left _ hother) hb hid
  have hout : a ∉ before := fun hmem =>
    (List.nodup_append.1 hids.of_map).2.2 a hmem a List.mem_cons_self rfl
  rw [List.idxOf_append_of_mem hother, List.idxOf_append_of_notMem hout, List.idxOf_cons_self]
  exact List.idxOf_lt_length_of_mem hother

end Order

namespace Registry

variable {r : Registry} {plan : RunPlan}

/-- The steps of a plan come in turn. -/
theorem plan_inTurn (h : r.plan = .ok plan) : Order.InTurn plan.steps := by
  have hturn := Order.place_inTurn r.steps.length [] r.steps .nil
  rwa [place_of_plan h] at hturn

/-- Where there is a plan, no step needs itself. -/
theorem Built.acyclic_of_plan (hr : r.Built) (h : r.plan = .ok plan) : r.Acyclic := by
  refine acyclic_of_rank (plan.steps.idxOf ·) fun a b hneeds => ?_
  have hperm := plan_perm h
  exact (plan_inTurn h).idxOf_lt (hr.nodup_plan h) (hperm.mem_iff.2 hneeds.1)
    (hperm.mem_iff.2 hneeds.2.1) hneeds.2.2

/-- Where a dependency is unknown, one that is unknown is reported. -/
theorem plan_of_not_known (h : ¬r.Known) : ∃ step d, r.plan = .error (.unknownDependency step d) := by
  unfold Registry.plan
  cases hunknown : r.unknownDependency? with
  | none => exact absurd (known_of_unknownDependency? hunknown) h
  | some e => exact ⟨e.1, e.2, rfl⟩

/-- Where dependencies are known, there is a plan or a cycle is reported. -/
theorem Known.plan_or_cycle (h : r.Known) :
    (∃ plan, r.plan = .ok plan) ∨ ∃ ids, r.plan = .error (.cycle ids) := by
  unfold Registry.plan
  rw [h.unknownDependency?]
  rcases Order.place r.steps.length [] r.steps with ⟨placed, _ | ⟨step, rest⟩⟩
  · exact .inl ⟨_, rfl⟩
  · exact .inr ⟨_, rfl⟩

/-- **Ordering answers what the dependencies call for.** For every registry that registering steps
makes, whatever the steps depend on and how often: an unknown dependency is reported if and only if
there is one; otherwise a cycle if and only if some step needs itself, be it through others;
otherwise there is a plan, in which every registered step occurs exactly once and after every step
it depends on. The computation itself has no fault: it stops for no other reason. -/
theorem Built.planByCounting_spec (h : r.Built) :
    ((∃ step d, r.planByCounting = .error (.refused (.unknownDependency step d))) ↔
      ∃ step ∈ r.steps, ∃ d ∈ step.dependsOn, ∀ other ∈ r.steps, other.id ≠ d) ∧
    (r.Known → ((∃ ids, r.planByCounting = .error (.refused (.cycle ids))) ↔
      ∃ step, Relation.TransGen r.Needs step step)) ∧
    (r.Known → r.Acyclic → ∃ plan, r.planByCounting = .ok plan ∧ plan.steps.Perm r.steps ∧
      (plan.steps.map (·.id)).Nodup ∧ Order.InTurn plan.steps) ∧
    r.planByCounting = r.plan.mapError .refused := by
  have hcounting := h.planByCounting_eq
  refine ⟨⟨?_, ?_⟩, fun hk => ⟨?_, ?_⟩, fun hk ha => ?_, hcounting⟩
  · rintro ⟨step, d, heq⟩
    by_contra hnone
    have hk : r.Known := by simpa [Known] using hnone
    rw [hcounting] at heq
    rcases hk.plan_or_cycle with ⟨plan, hplan⟩ | ⟨ids, hplan⟩ <;> simp [hplan, Except.mapError] at heq
  · rintro ⟨step, hstep, d, hd, hout⟩
    obtain ⟨id, d', hplan⟩ := plan_of_not_known fun hk : r.Known =>
      let ⟨other, hother, hid⟩ := hk step hstep d hd
      hout other hother hid
    exact ⟨id, d', by rw [hcounting, hplan]; rfl⟩
  · rintro ⟨ids, heq⟩
    by_contra hnone
    obtain ⟨plan, hplan⟩ := exists_plan hk fun step hstep => hnone ⟨step, hstep⟩
    rw [hcounting, hplan] at heq
    cases heq
  · rintro ⟨step, hstep⟩
    rcases hk.plan_or_cycle with ⟨plan, hplan⟩ | ⟨ids, hplan⟩
    · exact absurd hstep (h.acyclic_of_plan hplan step)
    · exact ⟨ids, by rw [hcounting, hplan]; rfl⟩
  · obtain ⟨plan, hplan⟩ := exists_plan hk ha
    exact ⟨plan, by rw [hcounting, hplan]; rfl, plan_perm hplan, h.nodup_plan hplan, plan_inTurn hplan⟩

/-- A step that names what it depends on twice, registered after that. -/
def namingTwice : Registry where
  steps := [⟨"share", [], .service { name := "share" }⟩,
    ⟨"web", ["share", "share"], .service { name := "web" }⟩]

/-- A step that depends on itself. -/
def namingItself : Registry where
  steps := [⟨"web", ["web"], .service { name := "web" }⟩]

theorem planByCounting_spec_namingTwice_namingItself :
    (∃ plan, namingTwice.planByCounting = .ok plan ∧ plan.steps.Perm namingTwice.steps ∧
      (plan.steps.map (·.id)).Nodup ∧ Order.InTurn plan.steps) ∧
    ∃ ids, namingItself.planByCounting = .error (.refused (.cycle ids)) := by
  have hfirst : Built ⟨[⟨"share", [], .service { name := "share" }⟩]⟩ :=
    .register .empty (by decide : register {} ⟨"share", [], .service { name := "share" }⟩ = _)
  have htwice : namingTwice.Built :=
    .register hfirst (by decide : register _ ⟨"web", ["share", "share"], .service { name := "web" }⟩ = _)
  have hitself : namingItself.Built :=
    .register .empty (by decide : register {} ⟨"web", ["web"], .service { name := "web" }⟩ = _)
  constructor
  · refine (Built.planByCounting_spec htwice).2.2.1 (by unfold Known; decide) ?_
    refine acyclic_of_rank (fun step => step.dependsOn.length) ?_
    rintro a b ⟨ha, hb, hd⟩
    simp only [namingTwice, List.mem_cons, List.not_mem_nil, or_false] at ha hb
    rcases ha with rfl | rfl <;> rcases hb with rfl | rfl <;> simp_all
  · refine ((Built.planByCounting_spec hitself).2.1 (by unfold Known; decide)).2 ?_
    exact ⟨⟨"web", ["web"], .service { name := "web" }⟩,
      .single ⟨List.mem_cons_self, List.mem_cons_self, List.mem_cons_self⟩⟩

end Registry

end Provision
