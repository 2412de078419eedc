import Mathlib.Data.List.Sort
import Provision.Proofs.Action.Results
import Provision.Proofs.Mock.Stage

/-!
# Which operations an action can record

The operations that an action finds missing depend on the state of the unit, which can be another
one in each attempt. All of them are among the operations that can be missing in any state, and
these stand in one order.

* `Units.missableOps`: the operations that can be missing, whatever state a unit is in.
* `delta_sublist`, `exists_delta`: what is missing in one state is among them, and if there are any
  one is missing in some state.
* `mergeOps_eq`: **what is missing and what was lost are merged to those of them that are either.**
* `returns_apply_missable`: an action records nothing else, whatever it is answered.
* `recorded_assumed`: so what it records is covered by the change that is assumed of it.
-/

namespace Provision

open Script

namespace Units

variable {unit : ServiceUnit} {ops U : List UnitOp}

/-- The operations that can be missing, whatever state a unit is in, a refresh included. -/
def missableOps (unit : ServiceUnit) : List UnitOp :=
  (if unit.enabled = some true then [.enable] else []) ++
    (unit.active.map fun active => if active then .start else .stop).toList ++
    (unit.refresh.map Refresh.op).toList ++
    (if unit.enabled = some false then [.disable] else [])

/-- What is missing in one state is among what can be missing. -/
theorem delta_sublist (unit : ServiceUnit) (state : UnitState) :
    (delta unit state).Sublist (missableOps unit) := by
  have hactivation : (activation unit state).Sublist
      (unit.active.map fun active => if active then UnitOp.start else .stop).toList := by
    unfold activation
    cases unit.active with
    | none => exact .refl _
    | some active => cases active <;> cases state.isActive <;> simp
  have hrefreshment : (refreshment unit state).Sublist (unit.refresh.map Refresh.op).toList := by
    unfold refreshment
    split
    · exact .refl _
    · exact List.nil_sublist _
  refine ((List.Sublist.append ?_ hactivation).append hrefreshment).append ?_
  · by_cases h : unit.enabled = some true
    · rw [if_pos h]
      split <;> simp
    · simp [h]
  · by_cases h : unit.enabled = some false
    · rw [if_pos h]
      split <;> simp
    · simp [h]

/-- If an operation can be missing, one is missing in some state of the unit. -/
theorem exists_delta (h : missableOps unit ≠ []) :
    ∃ state : UnitState, state.isLoaded = true ∧ ∃ op rest, delta unit state = op :: rest := by
  -- a unit that neither runs nor starts at boot, and one that does both
  have hall : delta unit ⟨"loaded", "inactive", "disabled"⟩ ≠ [] ∨
      delta unit ⟨"loaded", "active", "enabled"⟩ ≠ [] := by
    obtain ⟨name, enabled, active, reload, refresh⟩ := unit
    rcases enabled with _ | _ | _ <;> rcases active with _ | _ | _ <;> rcases refresh with _ | _ | _ <;>
      first | exact absurd rfl h | exact .inl (List.cons_ne_nil _ _) | exact .inr (List.cons_ne_nil _ _)
  rcases hall with h | h
  · exact ⟨_, rfl, List.exists_cons_of_ne_nil h⟩
  · exact ⟨_, rfl, List.exists_cons_of_ne_nil h⟩

/-- They stand in the order of their ranks, at most one of each. -/
theorem ranked_missableOps (unit : ServiceUnit) :
    (missableOps unit).Pairwise fun a b => a.rank < b.rank := by
  obtain ⟨name, enabled, active, reload, refresh⟩ := unit
  rcases enabled with _ | _ | _ <;> rcases active with _ | _ | _ <;> rcases refresh with _ | _ | _ <;>
    simp [missableOps, UnitOp.rank, Refresh.op]

/-- No two of them are opposite. -/
theorem inverse_not_mem_missableOps {op inv : UnitOp} (hop : op ∈ missableOps unit)
    (hinv : op.inverse? = some inv) : inv ∉ missableOps unit := by
  obtain ⟨name, enabled, active, reload, refresh⟩ := unit
  rcases enabled with _ | _ | _ <;> rcases active with _ | _ | _ <;> rcases refresh with _ | _ | _ <;>
    cases op <;> cases hinv <;> simp_all [missableOps, Refresh.op]

/-- Those that are assumed are those that can be undone. -/
theorem filter_missableOps (unit : ServiceUnit) :
    ((missableOps unit).filter fun op => op ∈ [.enable, .disable, .start, .stop]) = desiredOps unit := by
  obtain ⟨name, enabled, active, reload, refresh⟩ := unit
  rcases enabled with _ | _ | _ <;> rcases active with _ | _ | _ <;> rcases refresh with _ | _ | _ <;> rfl

/-! ### Merging -/

theorem nodup_merged (h : ops.Nodup) :
    (U.foldl (fun ops op => if op ∈ ops then ops else ops ++ [op]) ops).Nodup := by
  induction U generalizing ops with
  | nil => exact h
  | cons op rest ih =>
    refine ih ?_
    dsimp only
    split
    · exact h
    · rename_i hnew
      exact List.concat_eq_append ▸ h.concat hnew

/-- Operations are put in the order of their ranks, and none twice. -/
theorem pairwise_inOrder (h : ops.Nodup) :
    (inOrder ops).Pairwise fun a b => a.rank ≤ b.rank ∧ a ≠ b := by
  refine List.pairwise_flatMap.2 ⟨fun rank _ => ?_, ?_⟩
  · refine (h.filter _).imp_of_mem fun {a b} ha hb hne => ⟨?_, hne⟩
    rw [List.mem_filter] at ha hb
    simp_all
  · refine List.Pairwise.imp (R := fun i j => i < j) ?_ (by decide)
    intro i j hij a ha b hb
    rw [List.mem_filter, decide_eq_true_eq] at ha hb
    refine ⟨by omega, fun heq => ?_⟩
    subst heq
    omega

/-- **What is missing and what was lost are merged to those operations that are either**, in the
order in which they can be missing. -/
theorem mergeOps_eq (hops : ops.Sublist (missableOps unit)) (hU : ∀ op ∈ U, op ∈ missableOps unit) :
    mergeOps ops U = (missableOps unit).filter fun op => op ∈ ops ∨ op ∈ U := by
  have hranked := ranked_missableOps unit
  have hmissable : ∀ op ∈ mergeOps ops U, op ∈ missableOps unit := fun op hop =>
    (mem_mergeOps.1 hop).elim (fun hmem => hops.subset hmem) (hU op)
  -- of each rank there is one operation that can be missing
  have hranks : ((missableOps unit).map UnitOp.rank).Nodup :=
    List.pairwise_map.2 (hranked.imp fun hlt => Nat.ne_of_lt hlt)
  have hnodup : ops.Nodup := (hranks.of_map).sublist hops
  have hmerged : (mergeOps ops U).Pairwise fun a b => a.rank < b.rank := by
    refine (pairwise_inOrder (nodup_merged hnodup)).imp_of_mem fun ha hb ⟨hle, hne⟩ => ?_
    refine Nat.lt_of_le_of_ne hle fun heq => hne ?_
    exact List.inj_on_of_nodup_map hranks (hmissable _ ha) (hmissable _ hb) heq
  have : Std.Irrefl fun a b : UnitOp => a.rank < b.rank := ⟨fun a => Nat.lt_irrefl a.rank⟩
  have : Std.Antisymm fun a b : UnitOp => a.rank < b.rank :=
    ⟨fun a b hab hba => absurd hab (Nat.lt_asymm hba)⟩
  refine hmerged.eq_of_mem_iff (hranked.filter _) fun op => ?_
  rw [List.mem_filter, decide_eq_true_eq, ← mem_mergeOps]
  exact ⟨fun hop => ⟨hmissable op hop, hop⟩, fun hop => hop.2⟩

/-! ### Attempts -/

theorem returns_diff_missable (unit : ServiceUnit) :
    (diff unit).Returns fun r => ∀ ops, r = .ok ops → ops.Sublist (missableOps unit) := by
  refine (returns_any _).bind ?_
  rintro (e | state) -
  · exact fun ops h => by cases h
  · intro ops h
    obtain rfl : delta unit state = ops := Except.ok.inj h
    exact delta_sublist unit state

/-- What was lost while operations were issued is one of them. -/
theorem returns_issueAll_missable (hU : ∀ op ∈ U, op ∈ missableOps unit) : ∀ issued : List UnitOp,
    (∀ op ∈ ops, op ∈ missableOps unit) →
    (issueAll unit U issued ops).Returns fun r => ∀ op ∈ r.2, op ∈ missableOps unit := by
  induction ops with
  | nil => exact fun _ _ => hU
  | cons op rest ih =>
    intro issued hops
    obtain ⟨hop, hrest⟩ := List.forall_mem_cons.1 hops
    refine (returns_any _).bind ?_
    rintro (e | _) -
    · refine (returns_any _).bind fun _ _ => ?_
      show ∀ lost ∈ noteLost U op e, lost ∈ missableOps unit
      unfold noteLost
      split
      · exact List.forall_mem_append.2 ⟨hU, List.forall_mem_singleton.2 hop⟩
      · exact hU
    · exact ih _ hrest

/-- **An attempt** finds missing what can be missing, and loses nothing else. -/
theorem returns_reconcile_missable (hU : ∀ op ∈ U, op ∈ missableOps unit) :
    (reconcile unit U).Returns fun r =>
      (∀ change, r.1 = .ok change → ∃ ops, change = .service ops ∧ ops.Sublist (missableOps unit)) ∧
        ∀ op ∈ r.2, op ∈ missableOps unit := by
  refine (returns_any _).bind ?_
  rintro (e | _) -
  · exact ⟨nofun, hU⟩
  · refine (returns_diff_missable unit).bind ?_
    rintro (e | ops) hops
    · exact ⟨nofun, hU⟩
    · have hsub := hops ops rfl
      refine (returns_issueAll_missable hU [] fun op hop => hsub.subset hop).bind ?_
      rintro ⟨e | _, U'⟩ hU'
      · exact ⟨nofun, hU'⟩
      · exact ⟨fun _ h => ⟨ops, (Except.ok.inj h).symm, hsub⟩, hU'⟩

end Units

open Provision.Units

variable {unit : ServiceUnit}

/-- **An action records only operations that can be missing**, whatever it is answered. -/
theorem StepAction.returns_apply_missable (policy : Retry) (unit : ServiceUnit) :
    ((StepAction.service unit).apply policy).Returns fun r =>
      ∀ change, r = .ok change → ∃ ops, change = .service ops ∧ ops.Sublist (missableOps unit) := by
  -- what was lost so far is the invariant of the attempts
  have hattempts : (policy.attempts (reconcile unit) []).Returns fun r =>
      (∀ change, r.1 = .ok change → ∃ ops, change = .service ops ∧ ops.Sublist (missableOps unit)) ∧
        ∀ op ∈ r.2, op ∈ missableOps unit :=
    policy.returns_attempts_from (fun U => ∀ op ∈ U, op ∈ missableOps unit)
      (fun U hU => (returns_reconcile_missable hU).imp fun _ hr => ⟨hr, fun _ _ _ => hr.2⟩)
      fun op hop => by cases hop
  refine hattempts.bind ?_
  rintro ⟨e | change, U⟩ ⟨hr, hU⟩
  · exact (returns_any _).bind fun _ _ _ h => by cases h
  · obtain ⟨ops, rfl, hops⟩ := hr change rfl
    intro change h
    refine ⟨mergeOps ops U, (Except.ok.inj h).symm, ?_⟩
    rw [mergeOps_eq hops hU]
    exact List.filter_sublist

/-- **What an action records is covered by the change that is assumed of it.** Whatever the bus
answers in any of the attempts, no operation is recorded twice or together with its opposite, they
stand in the order of their ranks, and those that can be undone are among the operations that are
assumed, in the same order. -/
theorem StepAction.recorded_assumed (policy : Retry) (unit : ServiceUnit) {σ : Type}
    {w : Setting Effect.interface σ} {s t : σ} {ops : List UnitOp}
    (h : ((StepAction.service unit).apply policy).Reaches w s (.done (.ok (.service ops))) t) :
    ops.Nodup ∧ (∀ op ∈ ops, ∀ inv, op.inverse? = some inv → inv ∉ ops) ∧
      ops.Pairwise (fun a b => a.rank ≤ b.rank) ∧
      ∃ assumed, (StepAction.service unit).assumedChange = .service assumed ∧
        (ops.filter fun op => op ∈ [.enable, .disable, .start, .stop]).Sublist assumed := by
  obtain ⟨ops', heq, hsub⟩ :=
    (((StepAction.returns_apply_missable policy unit).ensures s).sound h).2 _ rfl
  obtain rfl : ops = ops' := Change.service.inj heq
  have hranked := (ranked_missableOps unit).sublist hsub
  refine ⟨hranked.imp fun hlt heq => ?_, fun op hop inv hinv hmem => ?_, hranked.imp Nat.le_of_lt,
    desiredOps unit, rfl, ?_⟩
  · exact Nat.lt_irrefl _ (heq ▸ hlt)
  · exact inverse_not_mem_missableOps (hsub.subset hop) hinv (hsub.subset hmem)
  · rw [← filter_missableOps]
    exact hsub.filter _

/-- A unit that is to be enabled, to run, and to be restarted if it runs already. -/
def refreshed : ServiceUnit :=
  { name := "web", enabled := some true, active := some true, refresh := some .restart }

/-- A host on which it is disabled and runs, and the reply to enabling it is lost once. -/
def refreshedHost : Mock.Host :=
  { manager :=
      { units := [("web.service", ⟨false, true⟩)], scripted := [⟨.enable, "web.service", .lostReply, 1⟩] } }

/-- The second attempt finds only the restart missing; enabling is recorded all the same. -/
theorem StepAction.recorded_assumed_refreshed : ∃ t,
    ((StepAction.service refreshed).apply (.immediate 2)).Reaches
      (fun s e x t => Stage.play e s = (x, t)) ⟨refreshedHost, []⟩
      (.done (.ok (.service [.enable, .restart]))) t ∧
    (StepAction.service refreshed).assumedChange = .service [.enable, .start] ∧
    ([.enable, .restart].filter fun op => op ∈ [.enable, .disable, .start, .stop]).Sublist
      [UnitOp.enable, .start] := by
  obtain ⟨t, hwalk⟩ : ∃ t, ((StepAction.service refreshed).apply (.immediate 2)).walk Stage.play
      (fun _ _ => true) 20 ⟨refreshedHost, []⟩ = some (.done (.ok (.service [.enable, .restart])), t) :=
    ⟨_, rfl⟩
  have hr := Reaches.of_walk (w := fun s e x t => Stage.play e s = (x, t)) (fun _ _ _ => rfl) hwalk
  obtain ⟨-, -, -, assumed, hassumed, hsub⟩ := StepAction.recorded_assumed (.immediate 2) refreshed hr
  obtain rfl : [.enable, .start] = assumed := Change.service.inj hassumed
  exact ⟨t, hr, hassumed, hsub⟩

end Provision
