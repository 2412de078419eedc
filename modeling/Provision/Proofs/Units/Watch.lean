import Provision.Proofs.Action.Requests
import Provision.Proofs.Retry
import Provision.Proofs.Units.Switch

/-!
# Watching a switch of a unit

What applying an action and undoing a change do to one switch of the unit they are
about, when operations can fail, and can take effect though their reply is lost.

* `Units.watching`: the setting, of which a single switch is seen.
* `ensures_apply_switch`: **an action leaves a switch where it was, or records the
  operations that take it back**; it never moves it but to where it is wanted.
* `ensures_rollback_switch`: **undoing a change takes the switch back**, unless it says
  that it failed.
-/

namespace Provision.Units

open Script Switch

/-- What a request makes of one switch of a unit. An operation that failed may have
taken effect if another attempt is worth it. Whether an operation that undoes another
one takes effect may be `sure`. -/
def Watched (unit : String) (b : Switch) (sure : Prop) (x : Bool) : (e : Effect) → e.Reply → Bool → Prop
  | .host (.unitState name), r, x' =>
    x' = x ∧ (name = unit → ∀ state, r = .ok state → state.reads b = x)
  | .host (.issue op name), r, x' =>
    (name ≠ unit → x' = x) ∧ (name = unit →
      match r with
      | .ok _ => x' = op.put b x
      | .error e => x' = x ∨ (e.isTransient = true ∧ x' = op.put b x))
  | .host (.undo op name), r, x' =>
    (name ≠ unit → x' = x) ∧
      (name = unit → x' = op.put b x ∨ (x' = x ∧ ¬sure ∧ r.isOk = false))
  | _, _, x' => x' = x

/-- The setting in which one switch of a unit is seen. -/
def watching (unit : String) (b : Switch) (sure : Prop) : Setting Effect.interface Bool :=
  fun x e r x' => Watched unit b sure x e r x'

variable {unit : ServiceUnit} {b : Switch} {sure : Prop} {x₀ x₁ x y : Bool} {want : Option Bool}

/-! ### Undoing -/

theorem ensures_undoEach (b : Switch) (sure : Prop) (name : String) (rev : List UnitOp) : ∀ x,
    (undoEach name (rev.filterMap UnitOp.inverse?)).Ensures (watching name b sure)
      (Between b rev x) (fun r y => y = takeBack b rev.reverse x ∨ (¬sure ∧ r.isOk = false)) x := by
  induction rev with
  | nil => exact fun x => ⟨.inl rfl, .inl rfl⟩
  | cons op rest ih =>
    intro x
    have hreverse : takeBack b (op :: rest).reverse x =
        takeBack b rest.reverse ((op.turned? b).elim x (!·)) := by
      rw [List.reverse_cons, takeBack_append]; rfl
    -- what is undone of the rest starts from where this operation is undone, or is not
    have hrest : ∀ {x' y}, x' = x ∨ x' = (op.turned? b).elim x (!·) → Between b rest x' y →
        Between b (op :: rest) x y := by
      rintro x' y hx' (rfl | ⟨op', hop', hv⟩)
      · obtain rfl | rfl := hx'
        · exact .inl rfl
        · cases hv : op.turned? b with
          | none => exact .inl rfl
          | some v => exact .inr ⟨op, List.mem_cons_self, by simp [hv]⟩
      · exact .inr ⟨op', List.mem_cons_of_mem _ hop', hv⟩
    cases hinv : op.inverse? with
    | none =>
      rw [List.filterMap_cons_none hinv]
      rw [UnitOp.turned?_of_inverse?_none hinv] at hreverse hrest
      refine (ih x).mono (fun _ _ _ _ _ hx => hx) (fun y hy => hrest (.inl rfl) hy) fun r y _ hr => ?_
      rw [hreverse]; exact hr
    | some inv =>
      rw [List.filterMap_cons_some hinv]
      refine ensures_bind.2 ((ensures_call x).2 ⟨.inl rfl, fun r x' hx => ?_⟩)
      have hx' : x' = inv.put b x ∨ (x' = x ∧ ¬sure ∧ r.isOk = false) := hx.2 rfl
      rw [UnitOp.put_inverse hinv] at hx'
      have hnow : x' = x ∨ x' = (op.turned? b).elim x (!·) := by
        obtain hx' | ⟨hx', -⟩ := hx'
        · exact .inr hx'
        · exact .inl hx'
      refine ⟨hrest hnow (.inl rfl), ensures_bind.2 ?_⟩
      refine (ih x').mono (fun _ _ _ _ _ hx => hx) (fun y hy => hrest hnow hy) fun others y hy hr => ?_
      refine ⟨hrest hnow hy, ?_⟩
      obtain rfl | ⟨rfl, hsure, hfailed⟩ := hx'
      · rw [hreverse]
        obtain hr | ⟨hsure, hfailed⟩ := hr
        · exact .inl hr
        · refine .inr ⟨hsure, ?_⟩
          cases (r : Except HostError Unit) with
          | ok _ => exact hfailed
          | error e => rfl
      · refine .inr ⟨hsure, ?_⟩
        cases (r : Except HostError Unit) with
        | ok _ => cases hfailed
        | error e => rfl

/-- Undoing operations takes a switch back, unless it says that it failed. -/
theorem ensures_revert (ops : List UnitOp) (x : Bool) :
    (revert unit ops).Ensures (watching unit.unitName b sure) (Between b ops x)
      (fun r y => y = takeBack b ops x ∨ (¬sure ∧ r.isOk = false)) x := by
  have h := ensures_undoEach b sure unit.unitName ops.reverse x
  rw [List.reverse_reverse] at h
  refine h.mono (fun _ _ _ _ _ hx => hx) (fun y hy => ?_) fun _ _ _ hr => hr
  obtain hy | ⟨op, hop, hv⟩ := hy
  · exact .inl hy
  · exact .inr ⟨op, List.mem_reverse.1 hop, hv⟩

/-! ### One attempt -/

/-- An operation that failed is noted if it may have taken effect. Whether it did or
not, the switch is accounted for. -/
theorem accounts_noteLost {U : List UnitOp} {op : UnitOp} {e : HostError}
    (h : Accounts b want x₀ x U) (hw : want = some (!x)) (hop : op.turned? b = some (!x))
    (he : e.isTransient = true) : Accounts b want x₀ (!x) (noteLost U op e) := by
  unfold noteLost
  by_cases hmem : op ∈ U
  · rw [if_neg (by simp [hmem])]
    exact ⟨h.1, .inr ⟨op, hmem, hop⟩⟩
  · rw [if_pos ⟨he, hmem⟩]
    exact h.turn hw hop

theorem accounts_noteLost_missed {U : List UnitOp} {op : UnitOp} (e : HostError)
    (h : Accounts b want x₀ x U)
    (hop : op.turned? b = none ∨ (op.turned? b = some (!x) ∧ want = some (!x))) :
    Accounts b want x₀ x (noteLost U op e) := by
  unfold noteLost
  split
  · exact h.missed hop
  · exact h

/-- What is known of a switch while operations are issued, of which some have been: it
was at `x₁` before, and each of them that turned it did. -/
structure Issued (b : Switch) (want : Option Bool) (x₁ x : Bool) (issued : List UnitOp) : Prop where
  accounts : Accounts b want x₁ x issued
  took : ∀ op ∈ issued, ∀ v, op.turned? b = some v → x = v

theorem Issued.idle {op : UnitOp} {issued : List UnitOp} (h : Issued b want x₁ x issued)
    (hop : op.turned? b = none) : Issued b want x₁ x (issued ++ [op]) := by
  refine ⟨h.accounts.idle hop, fun op' hop' v hv => ?_⟩
  rcases List.mem_append.1 hop' with hop' | hop'
  · exact h.took op' hop' v hv
  · rw [List.mem_singleton] at hop'
    subst hop'; rw [hop] at hv; cases hv

/-- Nothing that was issued turned a switch which is not yet where it is wanted. -/
theorem Issued.untouched {issued : List UnitOp} (h : Issued b want x₁ x issued)
    (hw : want = some (!x)) : ∀ op ∈ issued, op.turned? b = none := by
  intro op hop
  cases hv : op.turned? b with
  | none => rfl
  | some v =>
    have hwanted := (h.accounts.1 op hop v hv).1
    rw [hw, h.took op hop v hv] at hwanted
    cases v <;> cases hwanted

theorem Issued.turn {op : UnitOp} {issued : List UnitOp} (h : Issued b want x₁ x issued)
    (hw : want = some (!x)) (hop : op.turned? b = some (!x)) :
    Issued b want x₁ (!x) (issued ++ [op]) := by
  refine ⟨h.accounts.turn hw hop, fun op' hop' v hv => ?_⟩
  rcases List.mem_append.1 hop' with hop' | hop'
  · rw [h.untouched hw op' hop'] at hv; cases hv
  · rw [List.mem_singleton] at hop'
    subst hop'
    exact Option.some.inj (hop.symm.trans hv)

/-- The switch before anything was issued, if it is not yet where it is wanted. -/
theorem Issued.before {issued : List UnitOp} (h : Issued b want x₁ x issued)
    (hw : want = some (!x)) : x₁ = x := by
  rw [← takeBack_of_accounts h.accounts, takeBack_of_idle (h.untouched hw)]

/-- What issuing operations leaves of a switch: they account for it since the attempt
began, or the lost ones account for it since the first attempt. -/
def Leaves (b : Switch) (want : Option Bool) (x₀ x₁ : Bool) (U ops : List UnitOp) :
    Except HostError Unit × List UnitOp → Bool → Prop
  | (.ok _, U'), y => U' = U ∧ Accounts b want x₁ y ops
  | (.error _, U'), y => Accounts b want x₀ y U'

/-- Where an operation failed, what was issued before it is undone. -/
theorem ensures_giveUp {U U' issued ops : List UnitOp} {e : HostError} (hU : x₁ = x₀ ∨ want = some x₁)
    (h : Issued b want x₁ x issued) (hy : y = x₀ ∨ want = some y)
    (hU' : Accounts b want x₀ (takeBack b issued y) U') :
    (do
      let _ ← revert unit issued
      return (.error e, U') : Effects (Except HostError Unit × List UnitOp)).Ensures
      (watching unit.unitName b True) (fun y => y = x₀ ∨ want = some y) (Leaves b want x₀ x₁ U ops) y := by
  -- in between the switch is where it is now, or where the attempt found it
  refine ensures_bind.2 ((ensures_revert issued y).mono (fun _ _ _ _ _ hx => hx) ?_ ?_)
  · rintro z (rfl | ⟨op, hop, hv⟩)
    · exact hy
    · have hx₁ := (h.accounts.1 op hop _ hv).2
      rw [Bool.not_not] at hx₁
      rw [← hx₁]; exact hU
  · rintro r z - (rfl | ⟨hsure, -⟩)
    · exact ⟨hU'.wanted, hU'⟩
    · exact absurd trivial hsure

/-- **Issuing operations**: they account for a switch, or what was issued is undone and
the lost ones account for it. -/
theorem ensures_issueAll (unit : ServiceUnit) {U : List UnitOp} (hU : Accounts b want x₀ x₁ U)
    (ops : List UnitOp) :
    ∀ issued x, Issued b want x₁ x issued → Route b want x ops →
      (issueAll unit U issued ops).Ensures (watching unit.unitName b True)
        (fun y => y = x₀ ∨ want = some y) (Leaves b want x₀ x₁ U (issued ++ ops)) x := by
  have halways : ∀ {issued x}, Issued b want x₁ x issued → x = x₀ ∨ want = some x := by
    intro issued x h
    obtain rfl | hx := h.accounts.wanted
    · exact hU.wanted
    · exact .inr hx
  induction ops with
  | nil =>
    intro issued x h _
    rw [List.append_nil]
    exact ⟨halways h, rfl, h.accounts⟩
  | cons op rest ih =>
    intro issued x h hroute
    refine ensures_bind.2 ((ensures_call x).2 ⟨halways h, fun r y hx => ?_⟩)
    have hunmoved : ∀ e, op.turned? b = none ∨ (op.turned? b = some (!x) ∧ want = some (!x)) →
        Accounts b want x₀ (takeBack b issued x) (noteLost U op e) := by
      intro e hop
      rw [takeBack_of_accounts h.accounts]
      refine accounts_noteLost_missed e hU ?_
      obtain hop | ⟨hop, hw⟩ := hop
      · exact .inl hop
      · rw [h.before hw]; exact .inr ⟨hop, hw⟩
    cases (r : Except HostError Unit) with
    | ok _ =>
      -- the operation took effect and counts as issued
      obtain rfl : y = op.put b x := hx.2 rfl
      have happend : issued ++ op :: rest = (issued ++ [op]) ++ rest := by simp
      rw [happend]
      obtain ⟨hop, hput, hrest⟩ | ⟨hop, hw, hrest⟩ := hroute
      · rw [hput]
        exact ⟨halways h, ih _ _ (h.idle hop) hrest⟩
      · rw [UnitOp.put_of_turned hop]
        exact ⟨.inr hw, ih _ _ (h.turn hw hop) hrest⟩
    | error e =>
      -- it failed, but may have taken effect: then it is noted
      have hy : y = x ∨ (e.isTransient = true ∧ y = op.put b x) := hx.2 rfl
      obtain ⟨hop, hput, -⟩ | ⟨hop, hw, -⟩ := hroute
      · obtain rfl : y = x := by
          obtain hy | ⟨-, hy⟩ := hy
          · exact hy
          · rw [hy, hput]
        exact ⟨halways h, ensures_giveUp hU.wanted h (halways h) (hunmoved e (.inl hop))⟩
      · obtain rfl | ⟨he, rfl⟩ := hy
        · exact ⟨halways h, ensures_giveUp hU.wanted h (halways h) (hunmoved e (.inr ⟨hop, hw⟩))⟩
        · rw [UnitOp.put_of_turned hop]
          refine ⟨.inr hw, ensures_giveUp hU.wanted h (.inr hw) ?_⟩
          rw [takeBack_of_idle (h.untouched hw)]
          rw [h.before hw] at hU
          exact accounts_noteLost hU hw hop he

/-- What an attempt leaves of a switch, the lost operations of earlier ones included. -/
def Attempted (b : Switch) (want : Option Bool) (x₀ : Bool) :
    Except HostError Change × List UnitOp → Bool → Prop
  | (.ok change, U), y => ∃ ops, change = .service ops ∧ Accounts b want x₀ y (mergeOps ops U)
  | (.error _, U), y => Accounts b want x₀ y U

/-- Reading the configuration again leaves a switch where it is. -/
theorem ensures_reloadIfAsked (unit : ServiceUnit) (x : Bool) :
    (reloadIfAsked unit).Ensures (watching unit.unitName b sure) (· = x) (fun _ _ => True) x := by
  by_cases hasked : unit.reloadManager = true
  · rw [reloadIfAsked, if_pos hasked]
    refine (ensures_call (c := .reloadManager) x).2 ⟨rfl, fun r y hx => ?_⟩
    obtain rfl : y = x := hx
    exact ⟨rfl, trivial⟩
  · rw [reloadIfAsked, if_neg hasked]
    exact ⟨rfl, trivial⟩

/-- The operations that are missing lead from where a switch is to where it is wanted. -/
theorem ensures_diff (unit : ServiceUnit) (x : Bool) :
    (diff unit).Ensures (watching unit.unitName b sure) (· = x)
      (fun r _ => ∀ ops, r = .ok ops → Route b (unit.wanted b) x ops) x := by
  have hstate : (state unit).Ensures (watching unit.unitName b sure) (· = x)
      (fun r _ => ∀ state, r = .ok state → state.reads b = x) x := by
    refine ensures_bind.2 ((ensures_call x).2 ⟨rfl, fun r y hx => ?_⟩)
    obtain ⟨rfl, hreads⟩ := hx
    refine ⟨rfl, ?_⟩
    cases (r : Except HostError UnitState) with
    | error e => exact ⟨rfl, fun state hs => by cases hs⟩
    | ok state =>
      refine ⟨rfl, fun state' hs => hreads rfl state' ?_⟩
      unfold known at hs
      split at hs
      · exact hs
      · cases hs
  refine ensures_bind.2 (hstate.imp ?_)
  rintro (e | state) y rfl hreads
  · exact ⟨rfl, fun ops hops => by cases hops⟩
  · refine ⟨rfl, fun ops hops => ?_⟩
    obtain rfl : delta unit state = ops := Except.ok.inj hops
    rw [← hreads state rfl]
    exact route_delta unit state b

/-- **One attempt**: the operations that are missing are issued, or nothing is. -/
theorem ensures_reconcile {U : List UnitOp} (h : Accounts b (unit.wanted b) x₀ x U) :
    (reconcile unit U).Ensures (watching unit.unitName b True) (fun y => y = x₀ ∨ unit.wanted b = some y)
      (Attempted b (unit.wanted b) x₀) x := by
  have hstays : ∀ y, y = x → y = x₀ ∨ unit.wanted b = some y := fun y hy => hy ▸ h.wanted
  refine ensures_bind.2 ((ensures_reloadIfAsked unit x).mono (fun _ _ _ _ _ hx => hx) hstays ?_)
  rintro (e | _) y rfl -
  · exact ⟨h.wanted, h⟩
  · refine ensures_bind.2 ((ensures_diff unit y).mono (fun _ _ _ _ _ hx => hx) hstays ?_)
    rintro (e | ops) z rfl hroute
    · exact ⟨h.wanted, h⟩
    · have hissue := ensures_issueAll unit h ops [] z
        ⟨accounts_nil b _ z, by simp⟩ (hroute ops rfl)
      rw [List.nil_append] at hissue
      refine ensures_bind.2 (hissue.imp ?_)
      rintro ⟨e | _, U'⟩ y hy hr
      · exact ⟨hy, hr⟩
      · obtain ⟨rfl, hr⟩ := hr
        exact ⟨hy, ops, rfl, h.trans hr fun op => by rw [mem_mergeOps, or_comm]⟩

/-! ### Applying and undoing -/

theorem watching_pause (s : Bool) (d : Duration) (x : Unit) (s' : Bool)
    (h : watching unit.unitName b sure s (.pause d) x s') : s' = s := h

/-- **An action leaves a switch of its unit where it was, or records the operations that
take it back**; in between the switch is where it was or where it is wanted. -/
theorem ensures_apply_switch (policy : Retry) (unit : ServiceUnit) (b : Switch) (x : Bool) :
    ((StepAction.service unit).apply policy).Ensures (watching unit.unitName b True)
      (fun y => y = x ∨ unit.wanted b = some y)
      (onResult (fun change y => ∃ ops, change = .service ops ∧ takeBack b ops y = x)
        fun _ y => y = x) x := by
  refine ensures_bind.2 ?_
  refine (policy.ensures_attempts (fun U y => Accounts b (unit.wanted b) x y U)
    (Attempted b (unit.wanted b) x) watching_pause (fun U y hU => ?_)
    (accounts_nil b _ x)).imp ?_
  · refine (ensures_reconcile hU).imp ?_
    rintro ⟨e | change, U'⟩ z - hr
    · exact ⟨hr, fun _ _ _ => hr⟩
    · exact ⟨hr, fun e he => by cases he⟩
  · rintro ⟨e | change, U⟩ y hy hr
    · refine ensures_bind.2 ((ensures_revert U y).mono (fun _ _ _ _ _ hx => hx) (fun z hz => ?_) ?_)
      · exact hr.wanted_of_between hz
      · rintro r z - (rfl | ⟨hsure, -⟩)
        · rw [takeBack_of_accounts hr]
          exact ⟨.inl rfl, rfl⟩
        · exact absurd trivial hsure
    · obtain ⟨ops, rfl, hr⟩ := hr
      exact ⟨hy, _, rfl, takeBack_of_accounts hr⟩

/-- **Undoing a change takes a switch back**, unless it says that it failed. -/
theorem ensures_rollback_switch (policy : Retry) (unit : ServiceUnit) (b : Switch)
    (ops : List UnitOp) (x : Bool) :
    ((StepAction.service unit).rollback policy (.service ops)).Ensures (watching unit.unitName b sure)
      (Between b ops x) (fun r y => y = takeBack b ops x ∨ (¬sure ∧ r.isOk = false)) x := by
  unfold StepAction.rollback
  by_cases hnoop : (Change.service ops).isNoop = true
  · obtain rfl : ops = [] := by simpa [Change.isNoop] using hnoop
    rw [if_pos hnoop]
    exact ⟨.inl rfl, .inl rfl⟩
  · rw [if_neg hnoop]
    -- a retry starts in the middle of undoing, and comes to the same
    refine policy.ensures_repeating (Between b ops x) watching_pause (fun y hy => ?_) (.inl rfl)
    have hagain : ∀ z, Between b ops y z → Between b ops x z := by
      rintro z (rfl | hz)
      · exact hy
      · exact .inr hz
    refine (ensures_revert ops y).mono (fun _ _ _ _ _ hx => hx) hagain ?_
    intro r z hz hr
    rw [takeBack_of_between hy] at hr
    exact ⟨hr, fun _ _ _ => hagain z hz⟩

/-- What is asked for another unit, or for a mount, leaves a switch where it is. -/
theorem ensures_other {α : Type} {p : Effects α} {action : StepAction} {name : String}
    (hp : p.Only (Effect.serves action)) (h : ∀ unit, action = .service unit → unit.unitName ≠ name)
    (x : Bool) : p.Ensures (watching name b sure) (· = x) (fun _ _ => True) x := by
  refine hp.ensures (fun y e r y' he hy hx => ?_) rfl
  subst hy
  cases e with
  | host c =>
    cases c with
    | unitState => exact hx.1
    | issue op unit' | undo op unit' =>
      cases action with
      | mount spec => exact he.elim
      | service unit =>
        have hname : unit' = unit.unitName := he
        exact hx.1 (hname ▸ h unit rfl)
    | _ => exact hx
  | _ => exact hx

end Provision.Units
