import Mathlib.Data.List.Basic
import Mathlib.Data.List.GetD
import Mathlib.Data.List.Nodup
import Mathlib.Logic.Function.Basic
import Provision.Proofs.Run.Dependencies
import Provision.Run.Countdown

/-!
# Ordering by counting

Every list that is indexed by the places of the steps is the table of a function on places, so
that fetching and changing an element is applying and updating that function.

* `foldlM_count`, `tally_eq`: what is counted, and who follows whom.
* `owed`: how many dependencies of a step have not been placed, with repetitions.
* `drain_eq`: counting down places the steps that looking again and again places.
* `settle_table`: taking marks off one by one leaves the steps that pruning in rounds leaves.
* `Built.planByCounting_eq`: **both give the same order, and nothing goes wrong while counting.**
-/

namespace Provision

namespace Order

/-- Each of some steps is needed by one of them. -/
def Closed (steps : List Step) : Prop := ∀ step ∈ steps, isNeeded steps step = true

variable {core steps : List Step} {step : Step}

/-- What is needed among some steps is needed among more. -/
theorem isNeeded_mono (hsub : core.Sublist steps) (h : isNeeded core step = true) :
    isNeeded steps step = true := by
  obtain ⟨other, hother, hid⟩ := List.any_eq_true.1 h
  exact List.any_eq_true.2 ⟨other, hsub.subset hother, hid⟩

theorem Closed.filter_eq (h : Closed core) (hsub : core.Sublist steps) :
    core.filter (isNeeded steps) = core :=
  List.filter_eq_self.2 fun step hstep => isNeeded_mono hsub (h step hstep)

theorem prune_sublist (n : Nat) : ∀ steps : List Step, (prune n steps).Sublist steps := by
  induction n with
  | zero => exact fun steps => .refl _
  | succ n ih => exact fun steps => (ih _).trans List.filter_sublist

/-- Pruning keeps what is closed. -/
theorem Closed.sublist_prune (h : Closed core) (n : Nat) : ∀ {steps : List Step},
    core.Sublist steps → core.Sublist (prune n steps) := by
  induction n with
  | zero => exact fun hsub => hsub
  | succ n ih => exact fun hsub => ih (h.filter_eq hsub ▸ hsub.filter _)

/-- What is left after enough rounds is closed. -/
theorem closed_prune (n : Nat) : ∀ {steps : List Step}, steps.length ≤ n → Closed (prune n steps) := by
  induction n with
  | zero =>
    intro steps hn
    obtain rfl : steps = [] := List.eq_nil_of_length_eq_zero (by omega)
    nofun
  | succ n ih =>
    intro steps hn
    by_cases hclosed : Closed steps
    · -- a round that leaves nothing out is not followed by one that does
      rwa [((prune_sublist _ _).antisymm (hclosed.sublist_prune (n + 1) (.refl _)))]
    · refine ih (Nat.le_of_lt_succ (Nat.lt_of_lt_of_le ?_ hn))
      refine List.length_filter_lt_length_iff_exists.2 ?_
      simpa [Closed] using hclosed

end Order

namespace Countdown

section Faultless

variable {α β : Type}

@[simp] theorem ok_bind (a : α) (f : α → Except Stop β) : (Except.ok a >>= f) = f a := rfl

/-- Applying a function that is computed without fault. -/
theorem mapM_eq {f : α → Except Stop β} {g : α → β} : ∀ {xs : List α},
    (∀ x ∈ xs, f x = .ok (g x)) → xs.mapM f = .ok (xs.map g)
  | [], _ => rfl
  | x :: rest, h => by
    rw [List.mapM_cons, h x List.mem_cons_self, mapM_eq fun x hx => h x (List.mem_cons_of_mem _ hx)]
    rfl

/-- Filtering by a condition that is computed without fault. -/
theorem filterM_eq {f : α → Except Stop Bool} {p : α → Bool} {xs : List α}
    (h : ∀ x ∈ xs, f x = .ok (p x)) : xs.filterM f = .ok (xs.filter p) := by
  have hacc : ∀ (xs acc : List α), (∀ x ∈ xs, f x = .ok (p x)) →
      List.filterAuxM f xs acc = .ok ((xs.filter p).reverse ++ acc) := by
    intro xs
    induction xs with
    | nil => exact fun _ _ => rfl
    | cons x rest ih =>
      intro acc h
      have hrest := fun acc => ih acc fun x hx => h x (List.mem_cons_of_mem _ hx)
      simp only [List.filterAuxM, h x List.mem_cons_self, bind, Except.bind, hrest, List.filter_cons]
      cases p x <;> simp
  simp [List.filterM, hacc _ _ h, bind, Except.bind, pure, Except.pure]

end Faultless

section Table

variable {α : Type} {n i : Nat} {f g : Nat → α}

/-- The values of a function at the first places. -/
def table (n : Nat) (f : Nat → α) : List α := (List.range n).map f

@[simp] theorem length_table : (table n f).length = n := by simp [table]

theorem table_congr (h : ∀ i < n, f i = g i) : table n f = table n g :=
  List.map_congr_left fun i hi => h i (List.mem_range.1 hi)

theorem replicate_eq_table (a : α) : List.replicate n a = table n fun _ => a :=
  (List.eq_replicate_iff.2 ⟨length_table, by simp [table]⟩).symm

theorem fetch_table (h : i < n) : fetch (table n f) i = .ok (f i) := by
  simp [fetch, table, h]

theorem change_table (h : i < n) (t : α → α) :
    change (table n f) i t = .ok (table n (Function.update f i (t (f i)))) := by
  rw [change, if_pos (by simpa using h)]
  refine congrArg _ (List.ext_getElem (by simp) fun j _ _ => ?_)
  by_cases hij : i = j
  · subst hij
    simp [table]
  · simp [table, hij, Function.update_of_ne (Ne.symm hij)]

theorem decrement_table {f : Nat → Nat} {m : Nat} (h : i < n) (hm : f i = m + 1) :
    decrement (table n f) i = .ok (table n (Function.update f i m)) := by
  simp [decrement, fetch_table h, change_table h, bind, Except.bind, hm]

end Table

/-- Adding a place to those of ascending ones that satisfy a condition. -/
theorem enqueue_filter {p : Nat → Bool} {i : Nat} : ∀ {places : List Nat}, places.Pairwise (· < ·) →
    i ∈ places → enqueue i (places.filter p) = places.filter fun j => p j || j == i := by
  intro places
  induction places with
  | nil => nofun
  | cons j rest ih =>
    intro hsorted hi
    obtain ⟨hj, hrest⟩ := List.pairwise_cons.1 hsorted
    rcases List.mem_cons.1 hi with rfl | hmem
    · -- the place stands before the others
      have hothers : (rest.filter fun k => p k || k == i) = rest.filter p :=
        List.filter_congr fun k hk => by simp [(hj k hk).ne']
      cases hp : p i
      · rw [List.filter_cons_of_neg (by simp [hp]), List.filter_cons_of_pos (by simp), hothers]
        cases hfirst : rest.filter p with
        | nil => rfl
        | cons k others =>
          have hk : k ∈ rest := List.mem_of_mem_filter (hfirst ▸ List.mem_cons_self)
          simp [enqueue, hj k hk]
      · rw [List.filter_cons_of_pos hp, List.filter_cons_of_pos (by simp [hp]), hothers]
        simp [enqueue]
    · have hlt := hj i hmem
      cases hp : p j
      · rw [List.filter_cons_of_neg (by simp [hp]), List.filter_cons_of_neg (by simp [hp]; omega)]
        exact ih hrest hmem
      · rw [List.filter_cons_of_pos hp, List.filter_cons_of_pos (by simp [hp]), enqueue,
          if_neg (by omega), if_neg (by omega), ih hrest hmem]

end Countdown

namespace Registry

variable {r : Registry} {i j : Nat}

/-- The step at a place. -/
def stepAt (r : Registry) (i : Nat) : Step := r.steps.getD i default

/-- The steps at the places that satisfy a condition, in order. -/
def pick (r : Registry) (p : Nat → Bool) : List Step :=
  ((List.range r.steps.length).filter p).map r.stepAt

theorem stepAt_eq (h : i < r.steps.length) : r.stepAt i = r.steps[i] :=
  List.getD_eq_getElem _ _ h

theorem dependsOn_stepAt (h : r.steps.length ≤ i) : (r.stepAt i).dependsOn = [] := by
  rw [stepAt, List.getD_eq_default _ _ h]
  rfl

theorem steps_eq_table : r.steps = Countdown.table r.steps.length r.stepAt :=
  List.ext_getElem (by simp) fun i hi _ => by simp [Countdown.table, stepAt_eq hi]

theorem zipIdx_steps : r.steps.zipIdx = (List.range r.steps.length).map fun i => (r.stepAt i, i) :=
  List.ext_getElem (by simp) fun i hi _ => by
    simp [stepAt_eq (show i < r.steps.length by simpa using hi)]

theorem stepAt_mem (h : i < r.steps.length) : r.stepAt i ∈ r.steps :=
  stepAt_eq h ▸ List.getElem_mem h

theorem mem_pick {p : Nat → Bool} {step : Step} :
    step ∈ r.pick p ↔ ∃ i < r.steps.length, p i = true ∧ r.stepAt i = step := by
  simp [pick, and_assoc]

theorem pick_congr {p q : Nat → Bool} (h : ∀ i < r.steps.length, p i = q i) : r.pick p = r.pick q := by
  rw [pick, pick, List.filter_congr fun i hi => h i (List.mem_range.1 hi)]

theorem pick_true : r.pick (fun _ => true) = r.steps := by
  rw [pick, List.filter_true, ← Countdown.table, ← steps_eq_table]

section Built

variable (h : r.Built)
include h

/-- Different places have steps of different names. -/
theorem Built.place_eq (hi : i < r.steps.length) (hj : j < r.steps.length)
    (hid : (r.stepAt i).id = (r.stepAt j).id) : i = j := by
  rw [stepAt_eq hi, stepAt_eq hj] at hid
  have hi' : i < (r.steps.map (·.id)).length := by simpa using hi
  have hj' : j < (r.steps.map (·.id)).length := by simpa using hj
  have hget : (r.steps.map (·.id))[i] = (r.steps.map (·.id))[j] := by simpa using hid
  exact h.nodup.getElem_inj_iff.1 hget

/-- Taking one step out of those at some places. -/
theorem Built.erase_pick (hi : i < r.steps.length) (p : Nat → Bool) :
    (r.pick p).erase (r.stepAt i) = r.pick fun j => p j && j != i := by
  have hnodup : (r.pick p).Nodup := by
    refine List.Nodup.map_on ?_ (List.nodup_range.filter _)
    intro a ha b hb hab
    exact h.place_eq (List.mem_range.1 (List.mem_of_mem_filter ha))
      (List.mem_range.1 (List.mem_of_mem_filter hb)) (congrArg _ hab)
  rw [hnodup.erase_eq_filter, pick, pick, List.filter_map, List.filter_filter]
  refine congrArg _ (List.filter_congr fun j hj => ?_)
  have hne : (r.stepAt j != r.stepAt i) = (j != i) := by
    rw [Bool.eq_iff_iff, bne_iff_ne, bne_iff_ne]
    refine not_congr ⟨fun heq => ?_, fun heq => heq ▸ rfl⟩
    exact h.place_eq (List.mem_range.1 hj) hi (congrArg _ heq)
  rw [Function.comp, hne, Bool.and_comm]

/-- The place of a name is the place of the step that has it. -/
theorem Built.index?_eq_some {d : String} (hj : j < r.steps.length) :
    r.index? d = some j ↔ (r.stepAt j).id = d := by
  rw [index?, List.findIdx?_eq_some_iff_getElem]
  constructor
  · rintro ⟨_, hid, _⟩
    simpa [stepAt_eq hj] using hid
  · rintro rfl
    refine ⟨hj, by simp [stepAt_eq hj], fun k hk hid => ?_⟩
    have hk' : k < r.steps.length := hk.trans hj
    exact hk.ne (h.place_eq hk' hj (by simpa [stepAt_eq hj, stepAt_eq hk'] using hid))

end Built

theorem index?_eq_none {d : String} : r.index? d = none ↔ ∀ other ∈ r.steps, other.id ≠ d := by
  simp [index?, List.findIdx?_eq_none_iff]

theorem exists_index? {d : String} (h : r.index? d ≠ none) : ∃ j < r.steps.length, r.index? d = some j := by
  obtain ⟨j, hj⟩ := Option.ne_none_iff_exists'.1 h
  exact ⟨j, (List.findIdx?_eq_some_iff_getElem.1 hj).1, hj⟩

end Registry

namespace Countdown

open Registry

variable {r : Registry} {i j : Nat}

section Tally

/-- The dependencies of the step at one place. -/
theorem filter_dependencies (hi : i < r.steps.length) :
    (dependencies r).filter (·.2.1 = i) = (r.stepAt i).dependsOn.map (r.stepAt i, i, ·) := by
  have hone : ∀ n, i < n → ((List.range n).flatMap fun k =>
      if k = i then (r.stepAt i).dependsOn.map (r.stepAt i, i, ·) else []) =
        (r.stepAt i).dependsOn.map (r.stepAt i, i, ·) := by
    intro n
    induction n with
    | zero => nofun
    | succ n ih =>
      intro hn
      rw [List.range_succ, List.flatMap_append, List.flatMap_singleton]
      by_cases hlast : n = i
      · subst hlast
        have hbefore : ∀ k ∈ List.range n,
            (if k = n then (r.stepAt n).dependsOn.map (r.stepAt n, n, ·) else []) = [] :=
          fun k hk => if_neg (List.mem_range.1 hk).ne
        rw [if_pos rfl, List.flatMap_eq_nil_iff.2 hbefore, List.nil_append]
      · rw [if_neg hlast, List.append_nil, ih (by omega)]
  rw [dependencies, zipIdx_steps, List.flatMap_map, List.filter_flatMap, ← hone _ hi]
  refine congrArg (List.flatMap · _) (funext fun k => ?_)
  by_cases hk : k = i
  · subst hk
    simp [List.filter_map, Function.comp_def]
  · simp [List.filter_map, Function.comp_def, hk]

theorem mem_dependencies {step : Step} {d : String} :
    (step, i, d) ∈ dependencies r ↔ i < r.steps.length ∧ r.stepAt i = step ∧ d ∈ step.dependsOn := by
  constructor
  · intro hmem
    obtain ⟨⟨s, k⟩, hk, hd⟩ := List.mem_flatMap.1 hmem
    obtain ⟨d', hd', heq⟩ := List.mem_map.1 hd
    obtain ⟨rfl, rfl, rfl⟩ : s = step ∧ k = i ∧ d' = d := by simpa using heq
    obtain ⟨-, hlt, hs⟩ := List.mem_zipIdx hk
    rw [Nat.zero_add] at hlt
    exact ⟨hlt, by simpa [stepAt_eq hlt] using hs.symm, hd'⟩
  · rintro ⟨hi, rfl, hd⟩
    refine List.mem_of_mem_filter (p := (·.2.1 = i)) ?_
    rw [filter_dependencies hi]
    exact List.mem_map_of_mem hd

/-- Whether a dependency is not registered. -/
def isUnknown (r : Registry) (dependency : Step × Nat × String) : Bool :=
  (r.index? dependency.2.2).isNone

/-- Counting dependencies that are registered. -/
theorem foldlM_count {n : Nat} (hn : n = r.steps.length) : ∀ (edges : List (Step × Nat × String))
    (c : Nat → Nat) (f : Nat → List Nat), (∀ e ∈ edges, e.2.1 < n) →
    (∀ e ∈ edges, isUnknown r e = false) →
    edges.foldlM (count r) ⟨table n c, table n f⟩ =
      .ok ⟨table n fun i => c i + edges.countP (·.2.1 = i),
        table n fun j => f j ++ (edges.filter (r.index? ·.2.2 = some j)).map (·.2.1)⟩ := by
  intro edges
  induction edges with
  | nil =>
    intro c f _ _
    simp [pure, Except.pure]
  | cons e rest ih =>
    intro c f hplaces hknown
    obtain ⟨step, i, d⟩ := e
    have hi : i < n := hplaces _ List.mem_cons_self
    have hd : r.index? d ≠ none := by
      simpa [isUnknown, Option.isSome_iff_ne_none] using hknown _ List.mem_cons_self
    obtain ⟨j, hj, hindex⟩ := exists_index? hd
    have hone : count r ⟨table n c, table n f⟩ (step, i, d) =
        .ok ⟨table n (Function.update c i (c i + 1)), table n (Function.update f j (f j ++ [i]))⟩ := by
      simp [count, hindex, change_table hi, change_table (hn ▸ hj), bind, Except.bind]
    rw [List.foldlM_cons, hone]
    refine (ih _ _ (fun e he => hplaces e (List.mem_cons_of_mem _ he))
      fun e he => hknown e (List.mem_cons_of_mem _ he)).trans ?_
    congr 2
    · refine table_congr fun k _ => ?_
      by_cases hk : i = k
      · subst hk
        simp
        omega
      · simp [hk, Function.update_of_ne (Ne.symm hk)]
    · refine table_congr fun k _ => ?_
      by_cases hk : j = k
      · subst hk
        simp [hindex]
      · simp [hindex, hk, Function.update_of_ne (Ne.symm hk)]

/-- Counting stops at the first dependency that is not registered. -/
theorem foldlM_count_unknown {n : Nat} (hn : n = r.steps.length) :
    ∀ (edges : List (Step × Nat × String)) (c : Nat → Nat) (f : Nat → List Nat)
    {e : Step × Nat × String}, (∀ e ∈ edges, e.2.1 < n) → edges.find? (isUnknown r) = some e →
    edges.foldlM (count r) ⟨table n c, table n f⟩ =
      .error (.refused (.unknownDependency e.1.id e.2.2)) := by
  intro edges
  induction edges with
  | nil => nofun
  | cons first rest ih =>
    intro c f e hplaces hfind
    obtain ⟨step, i, d⟩ := first
    have hi : i < n := hplaces _ List.mem_cons_self
    rw [List.foldlM_cons]
    cases hindex : r.index? d with
    | none =>
      rw [List.find?_cons_of_pos (by simp [isUnknown, hindex])] at hfind
      obtain rfl := Option.some.inj hfind
      simp [count, hindex, bind, Except.bind]
    | some j =>
      rw [List.find?_cons_of_neg (by simp [isUnknown, hindex])] at hfind
      obtain ⟨k, hk, hk'⟩ := exists_index? (r := r) (d := d) (by simp [hindex])
      obtain rfl : j = k := Option.some.inj (hindex.symm.trans hk')
      have hone : count r ⟨table n c, table n f⟩ (step, i, d) =
          .ok ⟨table n (Function.update c i (c i + 1)),
            table n (Function.update f j (f j ++ [i]))⟩ := by
        simp [count, hindex, change_table hi, change_table (hn ▸ hk), bind, Except.bind]
      rw [hone]
      exact ih _ _ (fun e he => hplaces e (List.mem_cons_of_mem _ he)) hfind

/-- The unknown dependency that is reported is the first one that is counted. -/
theorem unknownDependency?_eq : r.unknownDependency? =
    ((dependencies r).find? (isUnknown r)).map fun e => (e.1.id, e.2.2) := by
  have hcontains : ∀ d, (!r.contains d) = (r.index? d).isNone := by
    intro d
    rw [Bool.eq_iff_iff, Option.isNone_iff_eq_none, index?_eq_none]
    simp [contains]
  have hone : ∀ step : Step, ∀ i : Nat,
      (step.dependsOn.map (step, i, ·)).find? (isUnknown r) =
        (step.dependsOn.find? (!r.contains ·)).map (step, i, ·) := by
    intro step i
    rw [List.find?_map]
    refine congrArg _ (congrArg (List.find? · _) (funext fun d => ?_))
    rw [hcontains]
    rfl
  have hall : ∀ (steps : List Step) (k : Nat), (steps.findSome? fun s =>
      (s.dependsOn.find? (!r.contains ·)).map (s.id, ·)) =
        (((steps.zipIdx k).flatMap fun e => e.1.dependsOn.map (e.1, e.2, ·)).find?
          (isUnknown r)).map fun e => (e.1.id, e.2.2) := by
    intro steps
    induction steps with
    | nil => exact fun _ => rfl
    | cons step rest ih =>
      intro k
      rw [List.findSome?_cons, List.zipIdx_cons, List.flatMap_cons, List.find?_append, hone, ih (k + 1)]
      cases step.dependsOn.find? (!r.contains ·) <;> rfl
  exact hall r.steps 0

end Tally

section Drain

/-- How many dependencies of a step have not been placed, each as often as it is named. -/
def owed (r : Registry) (order : List Nat) (i : Nat) : Nat :=
  (r.stepAt i).dependsOn.countP fun d => d ∉ order.map (r.stepAt · |>.id)

/-- The steps that are ready: they have not been placed, and their count is zero. -/
def standing (n : Nat) (order : List Nat) (c : Nat → Nat) : Stand where
  counts := table n c
  ready := (List.range n).filter fun i => i ∉ order ∧ c i = 0
  order := order

theorem release_standing {n m : Nat} {order : List Nat} {c : Nat → Nat} (hi : i < n)
    (hout : i ∉ order) (hm : c i = m + 1) :
    release (standing n order c) i = .ok (standing n order (Function.update c i m)) := by
  have hready : (if m = 0 then enqueue i (standing n order c).ready else (standing n order c).ready) =
      (standing n order (Function.update c i m)).ready := by
    have hother : ∀ j, j ≠ i → Function.update c i m j = c j := fun j hj => Function.update_of_ne hj _ _
    by_cases hzero : m = 0
    · rw [if_pos hzero, standing, enqueue_filter List.pairwise_lt_range (List.mem_range.2 hi)]
      refine List.filter_congr fun j _ => ?_
      by_cases hj : j = i
      · subst hj
        simp [hout, hzero]
      · simp [hj]
    · rw [if_neg hzero]
      refine List.filter_congr fun j _ => ?_
      by_cases hj : j = i
      · subst hj
        simp [hm, hzero]
      · simp [hother j hj]
  simp only [release, standing, decrement_table hi hm, bind, Except.bind, fetch_table hi,
    Function.update_self] at hready ⊢
  simp only [hready]

/-- Counting down a list of steps, in which a step may occur again and again. -/
theorem foldlM_release {n : Nat} {order : List Nat} : ∀ (places : List Nat) (c : Nat → Nat),
    (∀ i ∈ places, i < n ∧ i ∉ order) → (∀ i, places.count i ≤ c i) →
    places.foldlM release (standing n order c) =
      .ok (standing n order fun i => c i - places.count i) := by
  intro places
  induction places with
  | nil =>
    intro c _ _
    simp [pure, Except.pure]
  | cons i rest ih =>
    intro c hplaces hcount
    obtain ⟨hi, hout⟩ := hplaces i List.mem_cons_self
    have hpositive := hcount i
    rw [List.count_cons_self] at hpositive
    rw [List.foldlM_cons, release_standing hi hout (m := c i - 1) (by omega)]
    refine (ih _ (fun j hj => hplaces j (List.mem_cons_of_mem _ hj)) fun j => ?_).trans ?_
    · have hj := hcount j
      by_cases hij : j = i
      · subst hij
        rw [Function.update_self]
        omega
      · rw [List.count_cons_of_ne (Ne.symm hij)] at hj
        rwa [Function.update_of_ne hij]
    · congr 2
      funext j
      by_cases hij : j = i
      · subst hij
        rw [Function.update_self, List.count_cons_self]
        omega
      · rw [Function.update_of_ne hij, List.count_cons_of_ne (Ne.symm hij)]

/-- Places that steps have been placed from: each once, and none of them waits for a dependency. -/
structure Placed (r : Registry) (order : List Nat) : Prop where
  nodup : order.Nodup
  lt : ∀ i ∈ order, i < r.steps.length
  free : ∀ i ∈ order, owed r order i = 0

/-- A step is ready when nothing is owed to it. -/
theorem isReady_eq (order : List Nat) (i : Nat) :
    Order.isReady (order.map r.stepAt) (r.stepAt i) = decide (owed r order i = 0) := by
  rw [Bool.eq_iff_iff, decide_eq_true_eq, owed, List.countP_eq_zero]
  simp [Order.isReady]

/-- Placing a step takes it off what is owed, as often as it is named. -/
theorem owed_append {order : List Nat} (h : r.Built) (hj : j < r.steps.length)
    (hlt : ∀ i ∈ order, i < r.steps.length) (hout : j ∉ order) (i : Nat) :
    owed r order i = owed r (order ++ [j]) i + (r.stepAt i).dependsOn.countP ((r.stepAt j).id = ·) := by
  have hnew : (r.stepAt j).id ∉ order.map (r.stepAt · |>.id) := by
    intro hmem
    obtain ⟨k, hk, hid⟩ := List.mem_map.1 hmem
    exact hout (h.place_eq (hlt k hk) hj hid ▸ hk)
  unfold owed
  induction (r.stepAt i).dependsOn with
  | nil => rfl
  | cons d rest ih =>
    by_cases hd : d = (r.stepAt j).id
    · subst hd
      simp only [List.countP_cons, hnew, ih]
      simp
      omega
    · simp only [List.countP_cons, ih, List.map_append, List.map_singleton, List.mem_append,
        List.mem_singleton, hd, or_false, Ne.symm hd]
      simp
      omega

/-- The steps that have not been placed. -/
def waiting (r : Registry) (order : List Nat) : List Step := r.pick fun i => decide (i ∉ order)

/-- The first step that is ready is the first one of those that wait. -/
theorem find?_waiting (order : List Nat) :
    (waiting r order).find? (Order.isReady (order.map r.stepAt)) =
      (standing r.steps.length order (owed r order)).ready.head?.map r.stepAt := by
  rw [waiting, pick, List.find?_map, List.find?_filter, standing, List.head?_filter]
  refine congrArg _ (congrArg (List.find? · _) (funext fun i => ?_))
  simp [isReady_eq]

theorem Placed.erase_waiting {order : List Nat} (h : r.Built) (hj : j < r.steps.length) :
    (waiting r order).erase (r.stepAt j) = waiting r (order ++ [j]) := by
  rw [waiting, h.erase_pick hj]
  exact pick_congr fun i _ => by by_cases hi : i = j <;> simp [hi]

/-- Placing a step that nothing is owed to. -/
theorem Placed.snoc {order : List Nat} (hp : Placed r order) (h : r.Built) (hj : j < r.steps.length)
    (hout : j ∉ order) (hfree : owed r order j = 0) : Placed r (order ++ [j]) where
  nodup := by simpa using hp.nodup.concat hout
  lt := by simpa [or_imp, forall_and] using ⟨hp.lt, hj⟩
  free := by
    intro i hi
    have howed := owed_append h hj hp.lt hout i
    rcases List.mem_append.1 hi with hold | hnew
    · have := hp.free i hold
      omega
    · obtain rfl := List.mem_singleton.1 hnew
      omega

variable {f : Nat → List Nat}

/-- Placing a step counts down the steps that follow it to what is still owed to them. -/
theorem Placed.release {order : List Nat} (hp : Placed r order) (h : r.Built)
    (hj : j < r.steps.length) (hout : j ∉ order) (hfree : owed r order j = 0)
    (hf : ∀ i, (f j).count i = (r.stepAt i).dependsOn.countP ((r.stepAt j).id = ·)) :
    (f j).foldlM Countdown.release (standing r.steps.length (order ++ [j]) (owed r order)) =
      .ok (standing r.steps.length (order ++ [j]) (owed r (order ++ [j]))) := by
  have howed := owed_append h hj hp.lt hout
  have hplaced := hp.snoc h hj hout hfree
  have hsteps : ∀ i ∈ f j, i < r.steps.length ∧ i ∉ order ++ [j] := by
    intro i hi
    have hpositive := List.count_pos_iff.2 hi
    rw [hf] at hpositive
    refine ⟨?_, fun hmem => ?_⟩
    · by_contra hlt
      rw [dependsOn_stepAt (by omega)] at hpositive
      simp at hpositive
    · -- something is owed to a follower, so it has not been placed
      have hzero : owed r order i = 0 := by
        rcases List.mem_append.1 hmem with hold | hnew
        · exact hp.free i hold
        · exact List.mem_singleton.1 hnew ▸ hfree
      have := howed i
      omega
  rw [foldlM_release _ _ hsteps fun i => by rw [hf, howed i]; omega]
  congr 2
  funext i
  rw [hf, howed i]
  omega

/-- Where all places have been used, no step is ready. -/
theorem Placed.ready_eq_nil {order : List Nat} {c : Nat → Nat} (hp : Placed r order)
    (hall : r.steps.length ≤ order.length) : (standing r.steps.length order c).ready = [] := by
  have hperm : (List.range r.steps.length).Perm order :=
    ((hp.nodup.subperm fun i hi => List.mem_range.2 (hp.lt i hi)).perm_of_length_le
      (by simpa using hall)).symm
  refine List.filter_eq_nil_iff.2 fun i hi => ?_
  simp [hperm.mem_iff.1 hi]

/-- A step that is ready has not been placed, and its count is zero. -/
theorem mem_ready {n : Nat} {order : List Nat} {c : Nat → Nat} :
    j ∈ (standing n order c).ready ↔ j < n ∧ j ∉ order ∧ c j = 0 := by
  simp [standing]

/-- Placing the first step that is ready leaves the other ones ready. -/
theorem standing_snoc {n : Nat} {order rest : List Nat} {c : Nat → Nat}
    (hready : (standing n order c).ready = j :: rest) :
    { standing n order c with ready := rest, order := (standing n order c).order ++ [j] } =
      standing n (order ++ [j]) c := by
  -- the places are in ascending order, so the first one does not occur again
  have hnodup : (j :: rest).Nodup := hready ▸ List.nodup_range.filter _
  have hrest : rest = (standing n (order ++ [j]) c).ready := by
    have herase := hnodup.erase_eq_filter j
    rw [List.erase_cons_head, ← hready] at herase
    rw [herase, standing, standing, List.filter_filter]
    refine List.filter_congr fun i _ => ?_
    by_cases hij : i = j <;> simp [hij]
  rw [hrest]
  rfl

/-- **Counting down places the steps that looking for a ready one again and again places.** -/
theorem drain_eq (h : r.Built)
    (hf : ∀ j < r.steps.length, ∀ i, (f j).count i = (r.stepAt i).dependsOn.countP ((r.stepAt j).id = ·)) :
    ∀ (n : Nat) (order : List Nat), Placed r order → r.steps.length ≤ order.length + n →
    ∃ order', Placed r order' ∧
      drain (table r.steps.length f) n (standing r.steps.length order (owed r order)) =
        .ok (standing r.steps.length order' (owed r order')) ∧
      (standing r.steps.length order' (owed r order')).ready = [] ∧
      Order.place n (order.map r.stepAt) (waiting r order) =
        (order'.map r.stepAt, waiting r order') := by
  intro n
  induction n with
  | zero =>
    intro order hp hn
    have hready : (standing r.steps.length order (owed r order)).ready = [] := hp.ready_eq_nil hn
    exact ⟨order, hp, by unfold drain; rw [hready], hready, rfl⟩
  | succ n ih =>
    intro order hp hn
    have hfind := find?_waiting (r := r) order
    cases hready : (standing r.steps.length order (owed r order)).ready with
    | nil =>
      rw [hready] at hfind
      exact ⟨order, hp, by unfold drain; rw [hready], hready, by unfold Order.place; rw [hfind]; rfl⟩
    | cons j rest =>
      rw [hready] at hfind
      obtain ⟨hj, hout, hfree⟩ := mem_ready.1 (hready ▸ List.mem_cons_self :
        j ∈ (standing r.steps.length order (owed r order)).ready)
      obtain ⟨order', hp', hdrain, hnone, hplace⟩ :=
        ih (order ++ [j]) (hp.snoc h hj hout hfree) (by simp; omega)
      refine ⟨order', hp', ?_, hnone, ?_⟩
      · unfold drain
        rw [hready]
        have hrelease := hp.release h hj hout hfree (hf j hj)
        simp only [fetch_table hj, standing_snoc hready, hrelease, bind, Except.bind]
        exact hdrain
      · unfold Order.place
        rw [hfind]
        simp only [List.head?_cons, Option.map_some]
        rw [Placed.erase_waiting h hj, ← hplace, List.map_append, List.map_singleton]

/-- At first the steps are ready that depend on nothing. -/
theorem filterM_ready {n : Nat} {c : Nat → Nat} :
    (List.range n).filterM (fun i => do return decide ((← fetch (table n c) i) = 0)) =
      (.ok (standing n [] c).ready : Except Stop (List Nat)) := by
  rw [filterM_eq fun i hi => by rw [fetch_table (List.mem_range.1 hi)]; rfl]
  simp [standing]

/-- **Counting down from the start**: the places of the steps that are placed, and the steps that are
left, which all wait for a dependency. -/
theorem drain_start (h : r.Built)
    (hf : ∀ j < r.steps.length, ∀ i, (f j).count i = (r.stepAt i).dependsOn.countP ((r.stepAt j).id = ·)) :
    ∃ order, Placed r order ∧
      drain (table r.steps.length f) r.steps.length (standing r.steps.length [] (owed r [])) =
        .ok (standing r.steps.length order (owed r order)) ∧
      Order.place r.steps.length [] r.steps = (order.map r.stepAt, waiting r order) ∧
      order.length + (waiting r order).length = r.steps.length ∧
      waiting r order = r.pick fun i => decide (0 < owed r order i) := by
  obtain ⟨order, hplaced, hdrain, hnone, hplace⟩ :=
    drain_eq h hf r.steps.length [] ⟨by simp, by simp, by simp⟩ (by simp)
  have hall : waiting r [] = r.steps := (pick_congr fun i _ => by simp).trans pick_true
  rw [hall, List.map_nil] at hplace
  refine ⟨order, hplaced, hdrain, hplace, ?_, pick_congr fun i hi => ?_⟩
  · have hperm := (Order.place_perm r.steps.length [] r.steps).length_eq
    rw [hplace] at hperm
    simpa using hperm
  · have hi' := List.filter_eq_nil_iff.1 hnone i (List.mem_range.2 hi)
    by_cases hmem : i ∈ order
    · simp [hmem, hplaced.free i hmem]
    · simpa [hmem, Nat.pos_iff_ne_zero] using hi'

end Drain

section Marks

variable {m : Nat → Bool}

/-- The marked steps are those at the places that the marks are the table of. -/
theorem marked_table : marked r (table r.steps.length m) = r.pick m := by
  have hzip : ∀ places : List Nat,
      ((places.map r.stepAt).zip (places.map m)).filterMap
        (fun e => if e.2 then some e.1 else none) = (places.filter m).map r.stepAt := by
    intro places
    induction places with
    | nil => rfl
    | cons i rest ih =>
      simp only [List.map_cons, List.zip_cons_cons, List.filterMap_cons, List.filter_cons, ih]
      cases m i <;> rfl
  conv_lhs => rw [marked, show r.steps.zip = (table r.steps.length r.stepAt).zip by rw [← steps_eq_table]]
  exact hzip _

/-- Whether a marked step depends on a name. -/
theorem isNeeded_table (step : Step) :
    isNeeded r (table r.steps.length m) step.id = .ok (Order.isNeeded (r.pick m) step) := by
  have hplaces : ∀ places : List Nat, (∀ i ∈ places, i < r.steps.length) →
      (places.map fun i => (r.stepAt i, i)).anyM (fun e => do
        return (← fetch (table r.steps.length m) e.2) && e.1.dependsOn.contains step.id) =
      (.ok (((places.filter m).map r.stepAt).any fun other => other.dependsOn.contains step.id) :
        Except Stop Bool) := by
    intro places
    induction places with
    | nil => exact fun _ => rfl
    | cons i rest ih =>
      intro hlt
      have hrest := ih fun i hi => hlt i (List.mem_cons_of_mem _ hi)
      simp only [List.map_cons, List.anyM, fetch_table (hlt i List.mem_cons_self), bind, Except.bind,
        pure, Except.pure, List.filter_cons] at hrest ⊢
      cases m i
      · exact hrest
      · simp only [Bool.true_and, if_true, List.map_cons, List.any_cons, hrest]
        cases (r.stepAt i).dependsOn.contains step.id <;> rfl
  rw [isNeeded, zipIdx_steps]
  exact hplaces _ fun i hi => List.mem_range.1 hi

/-- Looking at one place: the mark stays, or it is taken off a step that none of the marked ones
needs. -/
theorem unmark_table (hi : i < r.steps.length) (b : Bool) :
    ((m i = true → Order.isNeeded (r.pick m) (r.stepAt i) = true) ∧
      unmark r (table r.steps.length m, b) i = .ok (table r.steps.length m, b)) ∨
    (m i = true ∧ Order.isNeeded (r.pick m) (r.stepAt i) = false ∧
      unmark r (table r.steps.length m, b) i =
        .ok (table r.steps.length (Function.update m i false), true)) := by
  have hstep : fetch r.steps i = .ok (r.stepAt i) := by
    simp [fetch, stepAt_eq hi, hi]
  simp only [unmark, fetch_table hi, hstep, isNeeded_table, change_table hi, bind, Except.bind]
  cases m i
  · exact .inl ⟨nofun, rfl⟩
  · cases Order.isNeeded (r.pick m) (r.stepAt i)
    · exact .inr ⟨rfl, rfl, rfl⟩
    · exact .inl ⟨fun _ => rfl, rfl⟩

/-- Only steps have been left out that no closed part of the others needs. -/
structure Thinned (r : Registry) (m m' : Nat → Bool) : Prop where
  sublist : (r.pick m').Sublist (r.pick m)
  keeps : ∀ core, Order.Closed core → core.Sublist (r.pick m) → core.Sublist (r.pick m')

theorem Thinned.refl : Thinned r m m := ⟨.refl _, fun _ _ h => h⟩

theorem Thinned.trans {m' m'' : Nat → Bool} (h : Thinned r m m') (h' : Thinned r m' m'') :
    Thinned r m m'' :=
  ⟨h'.sublist.trans h.sublist, fun core hcore hsub => h'.keeps core hcore (h.keeps core hcore hsub)⟩

theorem pick_update (h : r.Built) (hi : i < r.steps.length) :
    r.pick (Function.update m i false) = (r.pick m).erase (r.stepAt i) := by
  rw [h.erase_pick hi]
  refine pick_congr fun j _ => ?_
  by_cases hj : j = i
  · subst hj
    simp
  · simp [hj]

/-- A step that none of the marked ones needs is in no closed part of them. -/
theorem Thinned.unmark (h : r.Built) (hi : i < r.steps.length)
    (hfree : Order.isNeeded (r.pick m) (r.stepAt i) = false) :
    Thinned r m (Function.update m i false) where
  sublist := pick_update h hi ▸ List.erase_sublist
  keeps core hcore hsub := by
    have hout : r.stepAt i ∉ core := fun hmem => by
      have := Order.isNeeded_mono hsub (hcore _ hmem)
      simp [hfree] at this
    rw [pick_update h hi, ← List.erase_of_not_mem hout]
    exact hsub.erase _

/-- One round: marks have been taken off, or every step that was looked at is needed. -/
theorem foldlM_unmark (h : r.Built) : ∀ (places : List Nat), (∀ i ∈ places, i < r.steps.length) →
    ∀ (m : Nat → Bool) (b : Bool), ∃ m' b',
      places.foldlM (unmark r) (table r.steps.length m, b) = .ok (table r.steps.length m', b') ∧
      Thinned r m m' ∧ (b' = true → b = true ∨ (r.pick m').length < (r.pick m).length) ∧
      (b' = false → b = false ∧ m' = m ∧
        ∀ i ∈ places, m i = true → Order.isNeeded (r.pick m) (r.stepAt i) = true) := by
  intro places
  induction places with
  | nil => exact fun _ m b => ⟨m, b, rfl, .refl, .inl, fun hb => ⟨hb, rfl, nofun⟩⟩
  | cons i rest ih =>
    intro hlt m b
    have hi := hlt i List.mem_cons_self
    have hrest : ∀ j ∈ rest, j < r.steps.length := fun j hj => hlt j (List.mem_cons_of_mem _ hj)
    rcases unmark_table (m := m) hi b with ⟨hneeded, hone⟩ | ⟨hmark, hfree, hone⟩
    · obtain ⟨m', b', hfold, hthin, hchanged, hsettled⟩ := ih hrest m b
      refine ⟨m', b', ?_, hthin, hchanged, fun hb => ?_⟩
      · rw [List.foldlM_cons, hone]
        exact hfold
      · obtain ⟨hb, rfl, hothers⟩ := hsettled hb
        exact ⟨hb, rfl, List.forall_mem_cons.2 ⟨hneeded, hothers⟩⟩
    · obtain ⟨m', b', hfold, hthin, -, hsettled⟩ := ih hrest (Function.update m i false) true
      refine ⟨m', b', ?_, (Thinned.unmark h hi hfree).trans hthin, fun _ => .inr ?_,
        fun hb => nomatch (hsettled hb).1⟩
      · rw [List.foldlM_cons, hone]
        exact hfold
      · have hmem : r.stepAt i ∈ r.pick m := mem_pick.2 ⟨i, hi, hmark, rfl⟩
        have hlength := hthin.sublist.length_le
        rw [pick_update h hi, List.length_erase_of_mem hmem] at hlength
        have := List.length_pos_of_mem hmem
        omega

/-- Taking off marks ends with a closed part of the steps. -/
theorem settle_table (h : r.Built) (n : Nat) : ∀ m : Nat → Bool, (r.pick m).length < n →
    ∃ m', settle r n (table r.steps.length m) = .ok (table r.steps.length m') ∧ Thinned r m m' ∧
      Order.Closed (r.pick m') := by
  induction n with
  | zero => nofun
  | succ n ih =>
    intro m hn
    obtain ⟨m', b', hfold, hthin, hchanged, hsettled⟩ :=
      foldlM_unmark h (List.range r.steps.length) (fun i => List.mem_range.1) m false
    cases b' with
    | true =>
      have hshorter := (hchanged rfl).resolve_left nofun
      obtain ⟨m'', hsettle, hthin', hclosed⟩ := ih m' (by omega)
      refine ⟨m'', ?_, hthin.trans hthin', hclosed⟩
      simp only [settle, hfold, bind, Except.bind]
      exact hsettle
    | false =>
      obtain ⟨-, rfl, hneeded⟩ := hsettled rfl
      refine ⟨m', ?_, .refl, fun step hstep => ?_⟩
      · simp only [settle, hfold, bind, Except.bind]
        rfl
      · obtain ⟨i, hi, hmark, rfl⟩ := mem_pick.1 hstep
        exact hneeded i (List.mem_range.2 hi) hmark

/-- **Taking marks off one by one leaves what pruning in rounds leaves.** -/
theorem onCycle_table (h : r.Built) (c : Nat → Nat) :
    onCycle r (table r.steps.length c) =
      .ok ((Order.prune (r.pick fun i => decide (0 < c i)).length
        (r.pick fun i => decide (0 < c i))).map (·.id)) := by
  have hlength : (r.pick fun i => decide (0 < c i)).length < r.steps.length + 1 := by
    have := List.length_filter_le (fun i => decide (0 < c i)) (List.range r.steps.length)
    simp only [pick, List.length_map, List.length_range] at this ⊢
    omega
  obtain ⟨m', hsettle, hthin, hclosed⟩ := settle_table h _ _ hlength
  have hmarks : (table r.steps.length c).map (fun k => decide (0 < k)) =
      table r.steps.length fun i => decide (0 < c i) := by simp [table, Function.comp_def]
  -- both are closed, so each is kept by the way to the other
  have hsame : r.pick m' = Order.prune (r.pick fun i => decide (0 < c i)).length
      (r.pick fun i => decide (0 < c i)) :=
    (hclosed.sublist_prune _ hthin.sublist).antisymm
      (hthin.keeps _ (Order.closed_prune _ (Nat.le_refl _)) (Order.prune_sublist _ _))
  simp only [onCycle, hmarks, hsettle, bind, Except.bind, marked_table, hsame]

end Marks

end Countdown

namespace Registry

open Countdown

variable {r : Registry}

/-- What is counted: the dependencies of each step, and for each step how often others name it. -/
theorem Built.tally_eq (h : r.Built) (hk : r.Known) : ∃ f : Nat → List Nat,
    (∀ j < r.steps.length, ∀ i, (f j).count i =
      (r.stepAt i).dependsOn.countP ((r.stepAt j).id = ·)) ∧
    tally r = .ok ⟨table r.steps.length (owed r []), table r.steps.length f⟩ := by
  have hplaces : ∀ e ∈ dependencies r, e.2.1 < r.steps.length := fun e he => (mem_dependencies.1 he).1
  have hknown : ∀ e ∈ dependencies r, isUnknown r e = false := by
    rintro ⟨step, i, d⟩ he
    obtain ⟨hi, rfl, hd⟩ := mem_dependencies.1 he
    obtain ⟨other, hother, hid⟩ := hk _ (stepAt_mem hi) _ hd
    cases hindex : r.index? d with
    | some j => simp [isUnknown, hindex]
    | none => exact absurd hid (index?_eq_none.1 hindex other hother)
  have hfold := foldlM_count rfl (dependencies r) (fun _ => 0) (fun _ => []) hplaces hknown
  refine ⟨fun j => ((dependencies r).filter (r.index? ·.2.2 = some j)).map (·.2.1), ?_, ?_⟩
  · intro j hj i
    have hcount : (((dependencies r).filter (r.index? ·.2.2 = some j)).map (·.2.1)).count i =
        ((dependencies r).filter (·.2.1 = i)).countP fun e => decide (r.index? e.2.2 = some j) := by
      rw [List.count, List.countP_map, List.countP_filter, List.countP_filter]
      refine List.countP_congr fun e _ => ?_
      simp [and_comm]
    rw [hcount]
    by_cases hi : i < r.steps.length
    · simp [filter_dependencies hi, List.countP_map, Function.comp_def, h.index?_eq_some hj]
    · have hnone : (dependencies r).filter (·.2.1 = i) = [] :=
        List.filter_eq_nil_iff.2 fun e he => by
          have := hplaces e he
          simp
          omega
      rw [hnone, dependsOn_stepAt (by omega), List.countP_nil, List.countP_nil]
  · rw [tally, replicate_eq_table, replicate_eq_table, hfold]
    congr 2
    · refine table_congr fun i hi => ?_
      rw [List.countP_eq_length_filter, filter_dependencies hi]
      simp [owed]

theorem known_of_unknownDependency? (h : r.unknownDependency? = none) : r.Known := by
  rw [Registry.unknownDependency?, List.findSome?_eq_none_iff] at h
  intro step hstep d hd
  have hfound := List.find?_eq_none.1 (Option.map_eq_none_iff.1 (h step hstep)) d hd
  simpa [contains] using hfound

/-- A dependency that is unknown is reported while dependencies are counted. -/
theorem planByCounting_of_unknown {e : String × String} (h : r.unknownDependency? = some e) :
    r.planByCounting = .error (.refused (.unknownDependency e.1 e.2)) := by
  obtain ⟨e', he', rfl⟩ := Option.map_eq_some_iff.1 (unknownDependency?_eq.symm.trans h)
  have hcount := foldlM_count_unknown rfl (dependencies r) (fun _ => 0) (fun _ => [])
    (fun e he => (mem_dependencies.1 he).1) he'
  rw [← replicate_eq_table, ← replicate_eq_table, ← tally] at hcount
  simp only [planByCounting, hcount, bind, Except.bind]

/-- **Counting gives the order that looking again and again gives, and nothing goes wrong on the
way**: no place is out of range, no count falls below zero, and every loop ends. -/
theorem Built.planByCounting_eq (h : r.Built) : r.planByCounting = r.plan.mapError .refused := by
  unfold Registry.plan
  cases hunknown : r.unknownDependency? with
  | some e => exact planByCounting_of_unknown hunknown
  | none =>
    obtain ⟨f, hf, htally⟩ := h.tally_eq (known_of_unknownDependency? hunknown)
    obtain ⟨order, hplaced, hdrain, hplace, hlength, hleft⟩ := drain_start h hf
    have hstart : Stand.mk (table r.steps.length (owed r []))
        (standing r.steps.length [] (owed r [])).ready [] = standing r.steps.length [] (owed r []) := rfl
    simp only [planByCounting, htally, ok_bind, filterM_ready, hstart, hdrain, hplace]
    cases hwaiting : waiting r order with
    | nil =>
      rw [hwaiting, List.length_nil, Nat.add_zero] at hlength
      have hfetch : order.mapM (fetch r.steps) = .ok (order.map r.stepAt) := by
        conv_lhs => rw [steps_eq_table (r := r)]
        exact mapM_eq fun i hi => fetch_table (hplaced.lt i hi)
      simp only [standing, hlength, lt_irrefl, if_false, hfetch, ok_bind]
      rfl
    | cons step rest =>
      rw [hwaiting] at hlength
      have hshort : order.length < r.steps.length := by
        rw [← hlength, List.length_cons]
        omega
      simp only [standing, hshort, if_true, onCycle_table h, ← hleft, hwaiting, ok_bind]
      rfl

end Registry

end Provision
