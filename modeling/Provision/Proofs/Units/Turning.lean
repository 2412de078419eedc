import Provision.Proofs.Units.Watch

/-!
# Which way a switch is turned

An action that finds a switch where it was at first turns it one way only, whatever fails: so the
operations that it records leave the switch alone where they are undone while it is there.

* `Switch.TurnsFrom`: operations that turn a switch turn it away from one place.
* `TurnsFrom.takeBack`: undoing them leaves a switch at that place alone.
* `ensures_apply_turns`: **the operations that an action records turn a switch away from where the
  action found it**.
-/

namespace Provision

namespace Switch

variable {b : Switch} {x₀ x : Bool} {ops more : List UnitOp} {op : UnitOp} {want : Option Bool}

/-- The operations that turn a switch turn it away from one place. -/
def TurnsFrom (b : Switch) (x₀ : Bool) (ops : List UnitOp) : Prop :=
  ∀ op ∈ ops, ∀ v, op.turned? b = some v → v = !x₀

theorem turnsFrom_nil : TurnsFrom b x₀ [] := fun _ h => by cases h

theorem TurnsFrom.concat (h : TurnsFrom b x₀ ops) (hop : op.turned? b = none ∨ op.turned? b = some (!x₀)) :
    TurnsFrom b x₀ (ops ++ [op]) := by
  intro op' hop' v hv
  rcases List.mem_append.1 hop' with hop' | hop'
  · exact h op' hop' v hv
  · rw [List.mem_singleton.1 hop'] at hv
    obtain hop | hop := hop <;> rw [hop] at hv
    · cases hv
    · exact (Option.some.inj hv).symm

/-- **Undoing operations leaves a switch alone** at the place from which they turn it. -/
theorem TurnsFrom.takeBack (h : TurnsFrom b x₀ ops) : takeBack b ops x₀ = x₀ := by
  rw [takeBack_eq]
  cases hfirst : ops.findSome? (·.turned? b) with
  | none => rfl
  | some v =>
    obtain ⟨op, hop, hv⟩ := List.exists_of_findSome?_eq_some hfirst
    rw [h op hop v hv]
    exact Bool.not_not x₀

/-- A switch has been turned only if it is wanted where it was not. -/
def Turned (want : Option Bool) (x₀ x : Bool) : Prop := x = x₀ ∨ want = some (!x₀)

/-- An operation turns a switch only from where it was. -/
theorem Turned.eq (h : Turned want x₀ x) (hw : want = some (!x)) : x = x₀ := by
  obtain h | h := h
  · exact h
  · rw [hw] at h
    cases x <;> cases x₀ <;> first | rfl | cases h

/-- The first operation of a route turns the switch away from where it was at first, if at all. -/
theorem Route.turns (h : Route b want x (op :: ops)) (hx : Turned want x₀ x) :
    (op.turned? b = none ∨ op.turned? b = some (!x₀)) ∧ Turned want x₀ (op.put b x) ∧
      Route b want (op.put b x) ops := by
  obtain ⟨hop, hput, hrest⟩ | ⟨hop, hw, hrest⟩ := h
  · rw [hput]
    exact ⟨.inl hop, hx, hrest⟩
  · obtain rfl := hx.eq hw
    rw [UnitOp.put_of_turned hop]
    exact ⟨.inr hop, .inr hw, hrest⟩

/-- While such operations are being undone, the switch is where it is or back. -/
theorem TurnsFrom.turned_of_between {y : Bool} (h : TurnsFrom b x₀ ops) (hx : Turned want x₀ x)
    (hy : Between b ops x y) : Turned want x₀ y := by
  obtain rfl | ⟨op, hop, hv⟩ := hy
  · exact hx
  · left
    have hnot := h op hop _ hv
    cases y <;> cases x₀ <;> first | rfl | cases hnot

end Switch

namespace Units

open Script Switch

variable {unit : ServiceUnit} {b : Switch} {sure : Prop} {x₀ x : Bool} {want : Option Bool}

theorem turnsFrom_noteLost {U : List UnitOp} {op : UnitOp} (h : TurnsFrom b x₀ U)
    (hop : op.turned? b = none ∨ op.turned? b = some (!x₀)) (e : HostError) :
    TurnsFrom b x₀ (noteLost U op e) := by
  unfold Units.noteLost
  split
  · exact h.concat hop
  · exact h

/-- **Issuing operations** turns a switch away from where it was at first, if at all. -/
theorem ensures_issueAll_turns (unit : ServiceUnit) {U : List UnitOp} (hU : TurnsFrom b x₀ U)
    (ops : List UnitOp) : ∀ issued x, Turned (unit.wanted b) x₀ x → TurnsFrom b x₀ issued →
      Route b (unit.wanted b) x ops →
      (issueAll unit U issued ops).Ensures (watching unit.unitName b sure)
        (Turned (unit.wanted b) x₀) (fun r _ => TurnsFrom b x₀ r.2 ∧
          (r.1.isOk = true → TurnsFrom b x₀ (issued ++ ops))) x := by
  induction ops with
  | nil =>
    intro issued x hx hissued _
    rw [List.append_nil]
    exact ⟨hx, hU, fun _ => hissued⟩
  | cons op rest ih =>
    intro issued x hx hissued hroute
    obtain ⟨hop, hput, hnext⟩ := hroute.turns hx
    refine ensures_bind.2 ((ensures_call x).2 ⟨hx, fun r y hy => ?_⟩)
    cases (r : Except HostError Unit) with
    | ok _ =>
      obtain rfl : y = op.put b x := hy.2 rfl
      refine ⟨hput, ?_⟩
      have happend : issued ++ op :: rest = (issued ++ [op]) ++ rest := by simp
      rw [happend]
      exact ih _ _ hput (hissued.concat hop) hnext
    | error e =>
      -- what was issued is undone, and the operation may count as lost
      have hy : Turned (unit.wanted b) x₀ y := by
        obtain rfl | ⟨-, rfl⟩ : y = x ∨ (e.isTransient = true ∧ y = op.put b x) := hy.2 rfl
        · exact hx
        · exact hput
      refine ⟨hy, ensures_bind.2 ((ensures_revert issued y).mono (fun _ _ _ _ _ hx => hx)
        (fun z hz => hissued.turned_of_between hy hz) fun _ z hz _ => ?_)⟩
      exact ⟨hissued.turned_of_between hy hz, turnsFrom_noteLost hU hop e, fun h => by cases h⟩

/-- What an attempt records turns a switch away from where it was at first. -/
theorem ensures_reconcile_turns {U : List UnitOp} (hU : TurnsFrom b x₀ U)
    (hx : Turned (unit.wanted b) x₀ x) :
    (reconcile unit U).Ensures (watching unit.unitName b sure) (Turned (unit.wanted b) x₀)
      (fun r _ => TurnsFrom b x₀ r.2 ∧
        ∀ change, r.1 = .ok change → ∃ ops, change = .service ops ∧ TurnsFrom b x₀ ops) x := by
  have hstays : ∀ y, y = x → Turned (unit.wanted b) x₀ y := fun y hy => hy ▸ hx
  have hfailed : ∀ (e : HostError) change, (.error e : Except HostError Change) = .ok change →
      ∃ ops, change = .service ops ∧ TurnsFrom b x₀ ops := fun _ _ h => by cases h
  refine ensures_bind.2 ((ensures_reloadIfAsked unit x).mono (fun _ _ _ _ _ hx => hx) hstays ?_)
  rintro (e | _) y rfl -
  · exact ⟨hx, hU, hfailed e⟩
  · refine ensures_bind.2 ((ensures_diff unit y).mono (fun _ _ _ _ _ hx => hx) hstays ?_)
    rintro (e | ops) z rfl hroute
    · exact ⟨hx, hU, hfailed e⟩
    · refine ensures_bind.2
        ((ensures_issueAll_turns unit hU ops [] z hx turnsFrom_nil (hroute ops rfl)).imp ?_)
      rintro ⟨e | _, U'⟩ y hy ⟨hU', hissued⟩
      · exact ⟨hy, hU', hfailed e⟩
      · refine ⟨hy, hU', fun change hchange => ⟨ops, (Except.ok.inj hchange).symm, hissued rfl⟩⟩

/-- **The operations that an action records turn a switch away from where the action found it**,
whatever fails. -/
theorem ensures_apply_turns (policy : Retry) (unit : ServiceUnit) (b : Switch) (x : Bool) :
    ((StepAction.service unit).apply policy).Ensures (watching unit.unitName b sure) (fun _ => True)
      (fun r _ => ∀ change, r = .ok change → ∃ ops, change = .service ops ∧ TurnsFrom b x ops) x := by
  let inv (U : List UnitOp) (y : Bool) : Prop := TurnsFrom b x U ∧ Turned (unit.wanted b) x y
  let recorded (r : Except HostError Change × List UnitOp) (y : Bool) : Prop := inv r.2 y ∧
    ∀ change, r.1 = .ok change → ∃ ops, change = .service ops ∧ TurnsFrom b x ops
  have hattempts : (policy.attempts (reconcile unit) []).Ensures (watching unit.unitName b sure)
      (Turned (unit.wanted b) x) recorded x := by
    refine policy.ensures_attempts inv recorded watching_pause (fun U y ⟨hU, hy⟩ => ?_)
      ⟨turnsFrom_nil, .inl rfl⟩
    refine (ensures_reconcile_turns hU hy).imp ?_
    rintro ⟨r, U'⟩ z hz ⟨hU', hr⟩
    exact ⟨⟨⟨hU', hz⟩, hr⟩, fun _ _ _ => ⟨hU', hz⟩⟩
  refine ensures_bind.2 (hattempts.mono (fun _ _ _ _ _ hx => hx) (fun _ _ => trivial) ?_)
  rintro ⟨e | change, U⟩ y - ⟨⟨hU, -⟩, hr⟩
  · refine ensures_bind.2 (((returns_any _).ensures y).imp fun _ z _ _ => ⟨trivial, fun _ h => ?_⟩)
    cases h
  · -- the operations that were lost are recorded, too
    obtain ⟨ops, rfl, hops⟩ := hr change rfl
    refine ⟨trivial, fun change hchange => ⟨_, (Except.ok.inj hchange).symm, fun op hop => ?_⟩⟩
    exact (mem_mergeOps.1 hop).elim (hops op) (hU op)

end Units

end Provision
