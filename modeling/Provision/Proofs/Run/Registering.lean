import Provision.Proofs.Run.Sites
import Provision.Run.Indexed

/-!
# Every registered step in its place

* `Step.Distinct`, `Step.New`: no two steps have one name or one target; a step has neither in common
  with any other.
* `IndexedRegistry.Sound`: the steps are distinct, and the index shows the place of each name.
* `Indexed.contains_eq`: what the index shows is what is found by looking.
* `Sound.added`: **a new step keeps a registry sound.**
* `run_register`: registering in place does what `Registry.register` does.
* `Sound.run_registerAll`, `Sound.run_forM`: so it is with calls one after the other, whatever
  becomes of each, or up to the first failure.
* `registered`: **after any calls the registry is sound and has the accepted steps; a further call
  succeeds if and only if the step is new.**
-/

namespace Provision

namespace Step

/-- Two steps do not mount file systems at one target. -/
def TargetsDiffer (a b : Step) : Prop :=
  ∀ p q, a.action.mountTarget? = some p → b.action.mountTarget? = some q → p.components ≠ q.components

/-- No two steps have one name, or one target. -/
structure Distinct (steps : List Step) : Prop where
  ids : (steps.map (·.id)).Nodup
  targets : steps.Pairwise TargetsDiffer

/-- A step has a name that none of the steps has, and a target that none of them has. -/
structure New (steps : List Step) (step : Step) : Prop where
  id : step.id ∉ steps.map (·.id)
  target : ∀ other ∈ steps, TargetsDiffer other step

variable {steps : List Step} {step : Step}

theorem distinct_concat : Distinct (steps ++ [step]) ↔ Distinct steps ∧ New steps step := by
  have hids : ((steps ++ [step]).map (·.id)).Nodup ↔
      (steps.map (·.id)).Nodup ∧ step.id ∉ steps.map (·.id) := by
    rw [List.map_append, List.map_singleton, ← List.concat_eq_append, List.nodup_concat, and_comm]
  have htargets : (steps ++ [step]).Pairwise TargetsDiffer ↔
      steps.Pairwise TargetsDiffer ∧ ∀ other ∈ steps, TargetsDiffer other step := by
    simp [List.pairwise_append]
  constructor
  · intro h
    exact ⟨⟨(hids.1 h.ids).1, (htargets.1 h.targets).1⟩, ⟨(hids.1 h.ids).2, (htargets.1 h.targets).2⟩⟩
  · rintro ⟨h, hnew⟩
    exact ⟨hids.2 ⟨h.ids, hnew.id⟩, htargets.2 ⟨h.targets, hnew.target⟩⟩

theorem Distinct.of_append {rest : List Step} (h : Distinct (steps ++ rest)) : Distinct steps := by
  refine ⟨?_, (List.pairwise_append.1 h.targets).1⟩
  have hids := h.ids
  rw [List.map_append] at hids
  exact hids.of_append_left

end Step

open Step

namespace Registry

variable {r : Registry} {step : Step}

/-- Whether a name is registered is whether it is the name of a step. -/
theorem contains_iff {id : String} : r.contains id = true ↔ id ∈ r.steps.map (·.id) := by
  simp [contains]

/-- No file system is mounted at a target if and only if the targets differ. -/
theorem rival?_eq_none {target : Path} (htarget : step.action.mountTarget? = some target) :
    r.rival? target = none ↔ ∀ other ∈ r.steps, TargetsDiffer other step := by
  unfold rival? TargetsDiffer
  simp only [List.find?_eq_none, htarget, Option.some.injEq, Option.any_eq_true, Path.same_iff]
  constructor
  · rintro h other hother p _ hp rfl heq
    exact h other hother ⟨p, hp, heq⟩
  · rintro h other hother ⟨p, hp, heq⟩
    exact h other hother p _ hp rfl heq

/-- A new step is registered at the end. -/
theorem register_new (h : New r.steps step) : r.register step = .ok ⟨r.steps ++ [step]⟩ := by
  unfold register
  rw [if_neg (contains_iff.not.2 h.id)]
  cases htarget : step.action.mountTarget? with
  | none => rfl
  | some target =>
    dsimp only
    rw [(rival?_eq_none htarget).2 h.target]

/-- **A step is registered if and only if it is new.** -/
theorem new_of_register {r' : Registry} (h : r.register step = .ok r') : New r.steps step := by
  refine ⟨(register_eq h).1, fun other hother p q hp hq => ?_⟩
  exact (rival?_eq_none hq).1 (rival_of_register h hq) other hother p q hp hq

end Registry

namespace IndexedRegistry

/-- The index shows the place of every name, and nothing else. -/
def Indexed (r : IndexedRegistry) : Prop :=
  ∀ (id : String) (i : Nat), r.index[id]? = some i ↔ ∃ step, r.steps[i]? = some step ∧ step.id = id

/-- The steps are distinct, and the index shows their places. -/
structure Sound (r : IndexedRegistry) : Prop where
  distinct : Distinct r.steps
  indexed : r.Indexed

/-- One step more. -/
def added (r : IndexedRegistry) (step : Step) : IndexedRegistry :=
  { steps := r.steps ++ [step], index := r.index.insert step.id r.steps.length }

/-- The steps whose registration succeeded. -/
def accepted (calls : List Step) (replies : List (Except RunError Unit)) : List Step :=
  ((calls.zip replies).filter (·.2.isOk)).map (·.1)

variable {r : IndexedRegistry} {step : Step}

/-- A name is in the index if and only if it is the name of a step. -/
theorem Indexed.contains_eq (h : r.Indexed) (id : String) :
    r.contains id = Registry.contains ⟨r.steps⟩ id := by
  rw [Bool.eq_iff_iff, Registry.contains_iff, contains, Std.HashMap.contains_eq_isSome_getElem?,
    Option.isSome_iff_exists, List.mem_map]
  constructor
  · rintro ⟨i, hi⟩
    obtain ⟨step, hstep, hid⟩ := (h id i).1 hi
    exact ⟨step, List.mem_of_getElem? hstep, hid⟩
  · rintro ⟨step, hstep, hid⟩
    obtain ⟨i, hi⟩ := List.getElem?_of_mem hstep
    exact ⟨i, (h id i).2 ⟨step, hi, hid⟩⟩

theorem sound_empty : Sound {} := by
  refine ⟨⟨List.nodup_nil, .nil⟩, fun id i => ?_⟩
  simp

/-- What stands in a list with one more element. -/
theorem getElem?_concat {steps : List Step} {step other : Step} {i : Nat} :
    (steps ++ [step])[i]? = some other ↔
      steps[i]? = some other ∨ i = steps.length ∧ step = other := by
  rcases Nat.lt_trichotomy i steps.length with hlt | rfl | hgt
  · rw [List.getElem?_append_left hlt]
    simp [Nat.ne_of_lt hlt]
  · simp
  · rw [List.getElem?_append_right (Nat.le_of_lt hgt), List.getElem?_eq_none (Nat.le_of_lt hgt),
      List.getElem?_eq_none (Nat.sub_pos_of_lt hgt)]
    simp [Nat.ne_of_gt hgt]

/-- **A new step keeps a registry sound.** -/
theorem Sound.added (h : r.Sound) (hnew : New r.steps step) : (r.added step).Sound := by
  refine ⟨distinct_concat.2 ⟨h.distinct, hnew⟩, fun id i => ?_⟩
  unfold IndexedRegistry.added
  simp only [getElem?_concat, Std.HashMap.getElem?_insert, beq_iff_eq]
  split
  · rename_i hid
    subst hid
    constructor
    · rintro ⟨⟩
      exact ⟨step, .inr ⟨rfl, rfl⟩, rfl⟩
    · rintro ⟨other, hother | ⟨rfl, -⟩, hid⟩
      · -- no other step has the new name
        exact absurd (hid ▸ List.mem_map_of_mem (List.mem_of_getElem? hother)) hnew.id
      · rfl
  · rename_i hid
    rw [h.indexed id i]
    constructor
    · rintro ⟨other, hother, rfl⟩
      exact ⟨other, .inl hother, rfl⟩
    · rintro ⟨other, hother | ⟨-, rfl⟩, rfl⟩
      · exact ⟨other, hother, rfl⟩
      · exact absurd rfl hid

/-! ### One call -/

/-- **Registering in place does what registering does.** -/
theorem run_register (h : r.Indexed) (step : Step) : (register step).run r =
    match Registry.register ⟨r.steps⟩ step with
    | .ok _ => .ok () (r.added step)
    | .error e => .error e r := by
  unfold register Registry.register
  rw [EStateM.run_bind, EStateM.run_get, ← h.contains_eq step.id]
  dsimp only
  split
  · rfl
  · cases step.action.mountTarget? with
    | none => rfl
    | some target =>
      dsimp only
      rw [EStateM.run_bind, EStateM.run_get]
      have hrival : r.rival? target = Registry.rival? ⟨r.steps⟩ target := rfl
      dsimp only
      rw [hrival]
      cases Registry.rival? ⟨r.steps⟩ target with
      | some other => rfl
      | none => rfl

/-- A new step is registered. -/
theorem run_register_new (h : r.Sound) (hnew : New r.steps step) :
    (register step).run r = .ok () (r.added step) := by
  have hreg : Registry.register ⟨r.steps⟩ step = .ok ⟨r.steps ++ [step]⟩ := Registry.register_new hnew
  rw [run_register h.indexed, hreg]

/-- A step that is not new is refused, and the registry stays as it is. -/
theorem run_register_known (h : r.Sound) (hnew : ¬New r.steps step) :
    ∃ e, (register step).run r = .error e r := by
  rw [run_register h.indexed]
  cases hreg : Registry.register ⟨r.steps⟩ step with
  | ok r' => exact absurd (Registry.new_of_register hreg) hnew
  | error e => exact ⟨e, rfl⟩

/-! ### Calls one after the other -/

/-- After any calls a registry is sound, and has the accepted steps in addition. -/
theorem Sound.run_registerAll (h : r.Sound) (calls : List Step) :
    (r.registerAll calls).2.Sound ∧ (r.registerAll calls).1.length = calls.length ∧
      (r.registerAll calls).2.steps = r.steps ++ accepted calls (r.registerAll calls).1 := by
  induction calls generalizing r with
  | nil => exact ⟨h, rfl, (List.append_nil _).symm⟩
  | cons step rest ih =>
    unfold registerAll
    by_cases hnew : New r.steps step
    · rw [run_register_new h hnew]
      obtain ⟨hsound, hlength, hsteps⟩ := ih (h.added hnew)
      exact ⟨hsound, congrArg (· + 1) hlength, hsteps.trans (List.append_assoc r.steps [step] _)⟩
    · obtain ⟨e, hrun⟩ := run_register_known h hnew
      rw [hrun]
      obtain ⟨hsound, hlength, hsteps⟩ := ih h
      exact ⟨hsound, congrArg (· + 1) hlength, hsteps⟩

/-- Up to the first failure, steps are registered if and only if they are all distinct, and in place
as by `Registry.register`. -/
theorem Sound.run_forM (h : r.Sound) (steps : List Step) :
    (Distinct (r.steps ++ steps) ∧ ∃ r', (steps.forM register).run r = .ok () r' ∧
      steps.foldlM Registry.register ⟨r.steps⟩ = .ok ⟨r'.steps⟩) ∨
    (¬Distinct (r.steps ++ steps) ∧ ∃ e r', (steps.forM register).run r = .error e r' ∧
      steps.foldlM Registry.register ⟨r.steps⟩ = .error e) := by
  induction steps generalizing r with
  | nil =>
    rw [List.append_nil]
    exact .inl ⟨h.distinct, r, rfl, rfl⟩
  | cons step rest ih =>
    rw [List.forM, EStateM.run_bind, List.foldlM_cons, run_register h.indexed, List.append_cons]
    cases hreg : Registry.register ⟨r.steps⟩ step with
    | ok r' =>
      have hnew : New r.steps step := Registry.new_of_register hreg
      obtain ⟨-, rfl⟩ := Registry.register_eq hreg
      exact ih (h.added hnew)
    | error e =>
      refine .inr ⟨fun hall => ?_, e, r, rfl, rfl⟩
      have hreg' : Registry.register ⟨r.steps⟩ step = .ok ⟨r.steps ++ [step]⟩ :=
        Registry.register_new (distinct_concat.1 hall.of_append).2
      rw [hreg] at hreg'
      cases hreg'

/-- **What a registry holds.** After any calls, whether each succeeded or failed, no two steps have
one name or one target, the index shows the place of each name and nothing else, and the steps are
those whose registration succeeded, in order. A further call then succeeds if and only if the step
is new, and leaves the registry as it is if it fails. So the steps of a plan file are registered if
and only if no two of them have one name or one target, with an index and without. -/
theorem registered :
    (∀ calls : List Step, ∃ replies r, registerAll {} calls = (replies, r) ∧ r.Sound ∧
      replies.length = calls.length ∧ r.steps = accepted calls replies ∧
      ∀ step, (New r.steps step ∧ (register step).run r = .ok () (r.added step)) ∨
        (¬New r.steps step ∧ ∃ e, (register step).run r = .error e r)) ∧
    ∀ file : PlanFile, Registry.ofPlanFile file = (ofPlanFile file).map (⟨·.steps⟩) ∧
      ((∃ r, ofPlanFile file = .ok r) ↔ Distinct file.steps) := by
  refine ⟨fun calls => ?_, fun file => ?_⟩
  · obtain ⟨hsound, hlength, hsteps⟩ := sound_empty.run_registerAll calls
    refine ⟨_, _, rfl, hsound, hlength, hsteps, fun step => ?_⟩
    by_cases hnew : New (registerAll {} calls).2.steps step
    · exact .inl ⟨hnew, run_register_new hsound hnew⟩
    · exact .inr ⟨hnew, run_register_known hsound hnew⟩
  · unfold ofPlanFile Registry.ofPlanFile
    rcases sound_empty.run_forM file.steps with
      ⟨hall, r, hrun, hfold⟩ | ⟨hall, e, r, hrun, hfold⟩
    · rw [hrun]
      exact ⟨hfold, iff_of_true ⟨r, rfl⟩ hall⟩
    · rw [hrun]
      refine ⟨hfold, iff_of_false ?_ hall⟩
      rintro ⟨r', hr'⟩
      cases hr'

-- one directory may be written in two ways
example : Registry.ofPlanFile
    { version := 1, steps := [
      { id := "scratch", action := .mount ⟨"tmpfs", ⟨"/scratch"⟩, "tmpfs", []⟩ },
      { id := "again", action := .mount ⟨"tmpfs", ⟨"/./scratch/"⟩, "tmpfs", []⟩ }] } =
    .error (.duplicateMountTarget "scratch" "again" ⟨"/./scratch/"⟩) := by decide

end IndexedRegistry

end Provision
