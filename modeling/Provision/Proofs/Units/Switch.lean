import Provision.Action.Apply

/-!
# The switches of a unit

A unit is enabled or not, and active or not. Each operation sets at most one of
these switches, and undoing operations turns back what they turned.

* `UnitOp.put`, `UnitOp.turned?`: what an operation makes of a switch.
* `Switch.takeBack`: what undoing operations makes of a switch.
* `Switch.Accounts`: operations account for a switch that is not where it was.
* `takeBack_of_accounts`: **operations that account for a switch take it back**.
* `takeBack_of_between`: undoing can be cut short and done again.
* `route_delta`: the operations that are missing turn a switch at most once.
-/

namespace Provision

/-- What can be set of a unit. -/
inductive Switch where
  | enabled
  | active
deriving DecidableEq

/-- Where a state shows a switch to be. -/
def UnitState.reads (state : UnitState) : Switch → Bool
  | .enabled => state.isEnabled
  | .active => state.isActive

/-- Where a switch is to be, if that is asked for. -/
def ServiceUnit.wanted (unit : ServiceUnit) : Switch → Option Bool
  | .enabled => unit.enabled
  | .active => unit.active

namespace UnitOp

/-- Where an operation sets a switch. A restart starts. -/
def sets? (b : Switch) : UnitOp → Option Bool
  | enable => if b = .enabled then some true else none
  | disable => if b = .enabled then some false else none
  | start | restart => if b = .active then some true else none
  | stop => if b = .active then some false else none
  | reload => none

/-- Where a switch is after an operation. -/
def put (b : Switch) (op : UnitOp) (x : Bool) : Bool := (op.sets? b).getD x

/-- Where an operation that can be undone sets a switch. -/
def turned? (b : Switch) (op : UnitOp) : Option Bool := op.inverse?.bind fun _ => op.sets? b

/-- The inverse of an operation turns back what the operation turned. -/
theorem put_inverse {b : Switch} {op inv : UnitOp} (h : op.inverse? = some inv) (x : Bool) :
    inv.put b x = (op.turned? b).elim x (!·) := by
  cases op <;> cases h <;> cases b <;> rfl

theorem turned?_of_inverse?_none {b : Switch} {op : UnitOp} (h : op.inverse? = none) :
    op.turned? b = none := by
  rw [turned?, h]; rfl

/-- An operation sets a switch where it turns it. -/
theorem put_of_turned {b : Switch} {op : UnitOp} {v : Bool} (h : op.turned? b = some v) (x : Bool) :
    op.put b x = v := by
  cases op <;> cases b <;> first | exact Option.some.inj h | cases h

end UnitOp

namespace Switch

variable {b : Switch} {want : Option Bool} {x₀ x y : Bool} {ops more : List UnitOp}

/-- Where a switch is after operations have been undone, the last one first. -/
def takeBack (b : Switch) (ops : List UnitOp) (x : Bool) : Bool :=
  ops.foldr (fun op y => (op.turned? b).elim y (!·)) x

theorem takeBack_append (ops more : List UnitOp) (x : Bool) :
    takeBack b (ops ++ more) x = takeBack b ops (takeBack b more x) := List.foldr_append

/-- Only the first operation that turned a switch tells where it ends. -/
theorem takeBack_eq (ops : List UnitOp) (x : Bool) :
    takeBack b ops x = (ops.findSome? (·.turned? b)).elim x (!·) := by
  induction ops with
  | nil => rfl
  | cons op rest ih =>
    rw [List.findSome?_cons]
    show (op.turned? b).elim (takeBack b rest x) (!·) = _
    cases op.turned? b with
    | none => exact ih
    | some v => rfl

/-- Operations that do not turn a switch leave it where it is. -/
theorem takeBack_of_idle (h : ∀ op ∈ ops, op.turned? b = none) (x : Bool) : takeBack b ops x = x := by
  rw [takeBack_eq, List.findSome?_eq_none_iff.2 h]; rfl

/-- Operations that turn a switch take it back to one place. -/
theorem takeBack_of_turned {op : UnitOp} {v : Bool} (hop : op ∈ ops) (hv : op.turned? b = some v)
    (x y : Bool) : takeBack b ops x = takeBack b ops y := by
  rw [takeBack_eq, takeBack_eq]
  cases h : ops.findSome? (·.turned? b) with
  | none => rw [List.findSome?_eq_none_iff.1 h op hop] at hv; cases hv
  | some v => rfl

/-- The operations that turned a switch turned it to where it is wanted, from where it
was; and if it is not where it was then one of them turned it. -/
def Accounts (b : Switch) (want : Option Bool) (x₀ x : Bool) (ops : List UnitOp) : Prop :=
  (∀ op ∈ ops, ∀ v, op.turned? b = some v → want = some v ∧ x₀ = !v) ∧
    (x = x₀ ∨ ∃ op ∈ ops, op.turned? b = some x)

/-- **Operations that account for a switch take it back.** -/
theorem takeBack_of_accounts (h : Accounts b want x₀ x ops) : takeBack b ops x = x₀ := by
  -- the first operation that turned the switch tells where it was
  obtain ⟨hturned, hx⟩ := h
  rw [takeBack_eq]
  cases hfirst : ops.findSome? (·.turned? b) with
  | none =>
    obtain rfl | ⟨op, hop, hv⟩ := hx
    · rfl
    · rw [List.findSome?_eq_none_iff.1 hfirst op hop] at hv; cases hv
  | some v =>
    obtain ⟨op, hop, hv⟩ := List.exists_of_findSome?_eq_some hfirst
    exact (hturned op hop v hv).2.symm

theorem accounts_nil (b : Switch) (want : Option Bool) (x : Bool) : Accounts b want x x [] :=
  ⟨by simp, .inl rfl⟩

/-- A switch that operations account for is where it was, or where it is wanted. -/
theorem Accounts.wanted (h : Accounts b want x₀ x ops) : x = x₀ ∨ want = some x := by
  obtain hx | ⟨op, hop, hv⟩ := h.2
  · exact .inl hx
  · exact .inr (h.1 op hop x hv).1

/-- An operation that turns no switch accounts for nothing. -/
theorem Accounts.idle {op : UnitOp} (h : Accounts b want x₀ x ops) (hop : op.turned? b = none) :
    Accounts b want x₀ x (ops ++ [op]) := by
  obtain ⟨hturned, hx⟩ := h
  refine ⟨fun op' hop' v hv => ?_, ?_⟩
  · rcases List.mem_append.1 hop' with hop' | hop'
    · exact hturned op' hop' v hv
    · rw [List.mem_singleton] at hop'
      subst hop'; rw [hop] at hv; cases hv
  · obtain hx | ⟨op', hop', hv⟩ := hx
    · exact .inl hx
    · exact .inr ⟨op', List.mem_append_left _ hop', hv⟩

/-- A switch that is turned to where it is wanted had not been turned before. -/
theorem Accounts.turn {op : UnitOp} (h : Accounts b want x₀ x ops) (hw : want = some (!x))
    (hop : op.turned? b = some (!x)) : Accounts b want x₀ (!x) (ops ++ [op]) := by
  obtain rfl | hx := h.wanted
  · refine ⟨fun op' hop' v hv => ?_, .inr ⟨op, by simp, hop⟩⟩
    rcases List.mem_append.1 hop' with hop' | hop'
    · exact h.1 op' hop' v hv
    · rw [List.mem_singleton] at hop'
      subst hop'
      obtain rfl : (!x) = v := Option.some.inj (hop.symm.trans hv)
      exact ⟨hw, by simp⟩
  · rw [hw] at hx
    cases x <;> cases hx

/-- An operation that would turn a switch, but did not, changes no account. -/
theorem Accounts.missed {op : UnitOp} (h : Accounts b want x₀ x ops)
    (hop : op.turned? b = none ∨ (op.turned? b = some (!x) ∧ want = some (!x))) :
    Accounts b want x₀ x (ops ++ [op]) := by
  obtain hop | ⟨hop, hw⟩ := hop
  · exact h.idle hop
  · refine ⟨(h.turn hw hop).1, ?_⟩
    obtain hx | ⟨op', hop', hv⟩ := h.2
    · exact .inl hx
    · exact .inr ⟨op', List.mem_append_left _ hop', hv⟩

/-- What operations account for in two stretches they account for together. -/
theorem Accounts.trans {all : List UnitOp} (h : Accounts b want x₀ x ops)
    (h' : Accounts b want x y more) (hall : ∀ op, op ∈ all ↔ op ∈ ops ∨ op ∈ more) :
    Accounts b want x₀ y all := by
  refine ⟨fun op hop v hv => ?_, ?_⟩
  · rcases (hall op).1 hop with hop | hop
    · exact h.1 op hop v hv
    · obtain ⟨hw, hx⟩ := h'.1 op hop v hv
      obtain rfl | hx' := h.wanted
      · exact ⟨hw, hx⟩
      · -- the switch would be wanted both ways
        rw [hw, hx] at hx'
        cases v <;> cases hx'
  · obtain rfl | ⟨op, hop, hv⟩ := h'.2
    · obtain hx | ⟨op, hop, hv⟩ := h.2
      · exact .inl hx
      · exact .inr ⟨op, (hall op).2 (.inl hop), hv⟩
    · exact .inr ⟨op, (hall op).2 (.inr hop), hv⟩

/-- Where a switch can be while operations are being undone. -/
def Between (b : Switch) (ops : List UnitOp) (x y : Bool) : Prop :=
  y = x ∨ ∃ op ∈ ops, op.turned? b = some (!y)

/-- Undoing operations that are already being undone comes to the same. -/
theorem takeBack_of_between (h : Between b ops x y) : takeBack b ops y = takeBack b ops x := by
  obtain rfl | ⟨op, hop, hv⟩ := h
  · rfl
  · exact takeBack_of_turned hop hv y x

/-- While operations that account for a switch are being undone, the switch is where it
was or where it is wanted. -/
theorem Accounts.wanted_of_between (h : Accounts b want x₀ x ops) (hy : Between b ops x y) :
    y = x₀ ∨ want = some y := by
  obtain rfl | ⟨op, hop, hv⟩ := hy
  · exact h.wanted
  · left
    rw [(h.1 op hop _ hv).2, Bool.not_not]

/-! ### Operations to be issued -/

/-- Where a switch is after operations have been issued in order. -/
def putAll (b : Switch) (ops : List UnitOp) (x : Bool) : Bool := ops.foldl (fun x op => op.put b x) x

theorem putAll_append (ops more : List UnitOp) (x : Bool) :
    putAll b (ops ++ more) x = putAll b more (putAll b ops x) := List.foldl_append

/-- Operations that do not set a switch leave it where it is. -/
theorem putAll_of_idle (h : ∀ op ∈ ops, op.sets? b = none) (x : Bool) : putAll b ops x = x := by
  induction ops generalizing x with
  | nil => rfl
  | cons op rest ih =>
    have hop : op.put b x = x := by rw [UnitOp.put, h op List.mem_cons_self]; rfl
    show putAll b rest (op.put b x) = x
    rw [hop]
    exact ih (fun op' hop' => h op' (List.mem_cons_of_mem _ hop')) x

/-- Operations that can be issued one after the other from where a switch is: each one
leaves the switch alone or turns it to where it is wanted. -/
def Route (b : Switch) (want : Option Bool) : Bool → List UnitOp → Prop
  | _, [] => True
  | x, op :: rest =>
    (op.turned? b = none ∧ op.put b x = x ∧ Route b want x rest) ∨
      (op.turned? b = some (!x) ∧ want = some (!x) ∧ Route b want (!x) rest)

theorem Route.cons_idle {op : UnitOp} (hop : op.sets? b = none) (h : Route b want x ops) :
    Route b want x (op :: ops) := by
  refine .inl ⟨?_, ?_, h⟩
  · unfold UnitOp.turned?
    cases op.inverse? with
    | none => rfl
    | some inv => exact hop
  · rw [UnitOp.put, hop]; rfl

/-- Undoing operations issues their inverses, the last one first. -/
theorem putAll_inverses (ops : List UnitOp) (x : Bool) :
    putAll b (ops.reverse.filterMap UnitOp.inverse?) x = takeBack b ops x := by
  induction ops with
  | nil => rfl
  | cons op rest ih =>
    rw [List.reverse_cons, List.filterMap_append, putAll_append, ih]
    show _ = (op.turned? b).elim (takeBack b rest x) (!·)
    cases hinv : op.inverse? with
    | none =>
      rw [UnitOp.turned?, hinv, List.filterMap_cons_none hinv]
      rfl
    | some inv =>
      rw [List.filterMap_cons_some hinv, ← UnitOp.put_inverse hinv]
      rfl

/-- Operations that were issued are taken back to where the switch was. -/
theorem Route.takeBack_putAll (h : Route b want x ops) : takeBack b ops (putAll b ops x) = x := by
  induction ops generalizing x with
  | nil => rfl
  | cons op rest ih =>
    show (op.turned? b).elim (takeBack b rest (putAll b rest (op.put b x))) (!·) = x
    obtain ⟨hturned, hput, hrest⟩ | ⟨hturned, -, hrest⟩ := h
    · rw [hturned, hput]
      exact ih hrest
    · rw [hturned]
      exact Bool.not_not x

theorem Route.append_idle (hmore : ∀ op ∈ more, op.sets? b = none) (h : Route b want x ops) :
    Route b want x (more ++ ops) := by
  induction more with
  | nil => exact h
  | cons op rest ih =>
    exact (ih fun op hop => hmore op (List.mem_cons_of_mem _ hop)).cons_idle
      (hmore op List.mem_cons_self)

end Switch

namespace Units

open Switch

variable {unit : ServiceUnit} {state : UnitState} {b : Switch}

theorem mem_inOrder {ops : List UnitOp} {op : UnitOp} : op ∈ inOrder ops ↔ op ∈ ops := by
  simp only [inOrder, List.mem_flatMap, List.mem_filter, decide_eq_true_eq]
  constructor
  · rintro ⟨rank, -, hop, -⟩
    exact hop
  · intro hop
    exact ⟨op.rank, by cases op <;> decide, hop, rfl⟩

/-- Merging lost operations loses none and invents none. -/
theorem mem_mergeOps {ops uncertain : List UnitOp} {op : UnitOp} :
    op ∈ mergeOps ops uncertain ↔ op ∈ ops ∨ op ∈ uncertain := by
  rw [mergeOps, mem_inOrder]
  induction uncertain generalizing ops with
  | nil => simp
  | cons lost rest ih =>
    rw [List.foldl_cons, ih, List.mem_cons]
    by_cases hlost : lost ∈ ops
    · rw [if_pos hlost]
      constructor
      · rintro (hop | hop)
        · exact .inl hop
        · exact .inr (.inr hop)
      · rintro (hop | rfl | hop)
        · exact .inl hop
        · exact .inl hlost
        · exact .inr hop
    · rw [if_neg hlost, List.mem_append, List.mem_singleton, or_assoc]

/-- Operations that stand in the order of their ranks stay as they are. -/
theorem inOrder_append {enabling activating refreshing disabling : List UnitOp}
    (h₀ : ∀ op ∈ enabling, op.rank = 0) (h₁ : ∀ op ∈ activating, op.rank = 1)
    (h₂ : ∀ op ∈ refreshing, op.rank = 2) (h₃ : ∀ op ∈ disabling, op.rank = 3) :
    inOrder (enabling ++ activating ++ refreshing ++ disabling) =
      enabling ++ activating ++ refreshing ++ disabling := by
  have hfilter : ∀ {l : List UnitOp} {rank : Nat}, (∀ op ∈ l, op.rank = rank) → ∀ rank',
      l.filter (·.rank = rank') = if rank = rank' then l else [] := by
    intro l rank hl rank'
    split
    · exact List.filter_eq_self.2 fun op hop => by simp_all
    · exact List.filter_eq_nil_iff.2 fun op hop => by simp_all
  simp only [inOrder, List.flatMap_cons, List.flatMap_nil, List.filter_append, hfilter h₀, hfilter h₁,
    hfilter h₂, hfilter h₃]
  simp

theorem sets?_of_mem_activation {op : UnitOp} (hop : op ∈ activation unit state) :
    op.sets? .enabled = none := by
  unfold activation at hop
  split at hop
  · split at hop <;> simp at hop
    subst hop; rfl
  · split at hop <;> simp at hop
    subst hop; rfl
  · cases hop

theorem sets?_of_mem_refreshment {op : UnitOp} (hop : op ∈ refreshment unit state) :
    op.sets? .enabled = none := by
  unfold refreshment at hop
  split at hop
  · obtain ⟨refresh, -, rfl⟩ : ∃ r, unit.refresh = some r ∧ r.op = op := by simpa using hop
    cases refresh <;> rfl
  · cases hop

/-- The operations that are missing stand in the order of their ranks. -/
theorem mergeOps_delta (unit : ServiceUnit) (state : UnitState) :
    mergeOps (delta unit state) [] = delta unit state := by
  refine inOrder_append ?_ ?_ ?_ ?_
  · split <;> simp [UnitOp.rank]
  · unfold activation
    split <;> (try split) <;> simp [UnitOp.rank]
  · unfold refreshment
    split
    · rcases unit.refresh with _ | _ | _ <;> simp [Refresh.op, UnitOp.rank]
    · simp
  · split <;> simp [UnitOp.rank]

/-- There is at most one refresh, and it is the one of the unit. -/
theorem refreshment_cases (unit : ServiceUnit) (state : UnitState) : refreshment unit state = [] ∨
    ∃ refresh, unit.refresh = some refresh ∧ refreshment unit state = [refresh.op] := by
  unfold refreshment
  split
  · cases unit.refresh with
    | none => exact .inl rfl
    | some refresh => exact .inr ⟨refresh, rfl, rfl⟩
  · exact .inl rfl

/-- Nothing but the refresh is missing where every switch is where it is wanted. -/
theorem delta_of_wanted (h : ∀ b v, unit.wanted b = some v → state.reads b = v) :
    delta unit state = refreshment unit state := by
  have henabled : ∀ v, unit.enabled = some v → state.isEnabled = v := h .enabled
  have hactive : ∀ v, unit.active = some v → state.isActive = v := h .active
  have hon : ¬(unit.enabled = some true ∧ !state.isEnabled) := fun hon => by
    simp [henabled true hon.1] at hon
  have hoff : ¬(unit.enabled = some false ∧ state.isEnabled ∧ !state.isFixed) := fun hoff => by
    simp [henabled false hoff.1] at hoff
  have hidle : activation unit state = [] := by
    unfold activation
    split
    · rename_i hstart
      rw [if_pos (hactive true hstart)]
    · rename_i hstop
      rw [if_neg (by simp [hactive false hstop])]
    · rfl
  rw [delta, if_neg hon, if_neg hoff, hidle, List.append_nil, List.nil_append, List.nil_append]

theorem refreshment_eq_nil (h : state.isActive = false ∨ unit.active = some false) :
    refreshment unit state = [] := by
  unfold refreshment
  rcases h with h | h
  · simp [h]
  · simp [h]

/-- A refresh finds the unit active and leaves it so. -/
theorem route_refreshment {want : Option Bool} {rest : List UnitOp} (x : Bool)
    (hx : x = state.isActive) (h : Route .active want x rest) :
    Route .active want x (refreshment unit state ++ rest) := by
  unfold refreshment
  split
  · rename_i hactive
    cases unit.refresh with
    | none => exact h
    | some refresh =>
      refine .inl ⟨?_, ?_, h⟩
      · cases refresh <;> rfl
      · rw [hx, hactive.1]
        cases refresh <;> rfl
  · exact h

/-- **The operations that are missing turn a switch only from where it is to where it is
wanted.** -/
theorem route_delta (unit : ServiceUnit) (state : UnitState) (b : Switch) :
    Route b (unit.wanted b) (state.reads b) (delta unit state) := by
  unfold delta
  simp only [List.append_assoc]
  cases b with
  | enabled =>
    have hmid : ∀ {want x rest}, Route .enabled want x rest →
        Route .enabled want x (activation unit state ++ (refreshment unit state ++ rest)) :=
      fun h => Route.append_idle (fun _ => sets?_of_mem_activation)
        (Route.append_idle (fun _ => sets?_of_mem_refreshment) h)
    -- enabling stands first and disabling last, and at most one of them is missing
    by_cases hon : unit.enabled = some true ∧ !state.isEnabled
    · have hstate : state.isEnabled = false := by simpa using hon.2
      have hoff : ¬(unit.enabled = some false ∧ state.isEnabled ∧ !state.isFixed) := by
        simp [hstate]
      rw [if_pos hon, if_neg hoff]
      refine .inr ⟨?_, ?_, hmid trivial⟩
      · rw [UnitState.reads, hstate]; rfl
      · rw [UnitState.reads, hstate]; exact hon.1
    · rw [if_neg hon]
      refine hmid ?_
      by_cases hoff : unit.enabled = some false ∧ state.isEnabled ∧ !state.isFixed
      · rw [if_pos hoff]
        refine .inr ⟨?_, ?_, trivial⟩
        · rw [UnitState.reads, hoff.2.1]; rfl
        · rw [UnitState.reads, hoff.2.1]; exact hoff.1
      · rw [if_neg hoff]; trivial
  | active =>
    -- enabling does not set this switch
    refine Route.append_idle (by split <;> simp [UnitOp.sets?]) ?_
    have hlast : ∀ {want x}, Route .active want x
        (if unit.enabled = some false ∧ state.isEnabled ∧ !state.isFixed then [.disable] else []) := by
      intro want x
      split
      · exact Route.cons_idle rfl trivial
      · trivial
    show Route .active unit.active state.isActive _
    cases hstate : state.isActive with
    | true =>
      have hrefresh : Route .active unit.active true (refreshment unit state ++ _) :=
        route_refreshment true hstate.symm hlast
      rcases hactive : unit.active with _ | _ | _
      · rw [activation, hactive, List.nil_append, ← hactive]; exact hrefresh
      · rw [activation, hactive, refreshment_eq_nil (.inr hactive)]
        simp only [hstate, if_true]
        exact .inr ⟨rfl, rfl, hlast⟩
      · rw [activation, hactive]
        simp only [hstate, if_true, List.nil_append]
        rw [← hactive]; exact hrefresh
    | false =>
      rw [refreshment_eq_nil (.inl hstate), List.nil_append]
      rcases hactive : unit.active with _ | _ | _
      · rw [activation, hactive, List.nil_append]; exact hlast
      · rw [activation, hactive]
        simp only [hstate, Bool.false_eq_true, if_false, List.nil_append]
        exact hlast
      · rw [activation, hactive]
        simp only [hstate, Bool.false_eq_true, if_false]
        exact .inr ⟨rfl, rfl, hlast⟩

/-- **The operations that are missing turn every switch that is asked for to where it is
wanted**, unless the unit cannot be disabled. -/
theorem putAll_delta {v : Bool} (hfixed : state.isFixed = false) (hw : unit.wanted b = some v) :
    putAll b (delta unit state) (state.reads b) = v := by
  unfold delta
  simp only [putAll_append]
  cases b with
  | enabled =>
    have hw : unit.enabled = some v := hw
    have hactivation : ∀ x, putAll .enabled (activation unit state) x = x :=
      putAll_of_idle fun _ => sets?_of_mem_activation
    have hrefreshment : ∀ x, putAll .enabled (refreshment unit state) x = x :=
      putAll_of_idle fun _ => sets?_of_mem_refreshment
    rw [hrefreshment, hactivation, hw]
    show putAll .enabled _ (putAll .enabled _ state.isEnabled) = v
    cases v <;> cases state.isEnabled <;> simp [putAll, hfixed, UnitOp.put, UnitOp.sets?]
  | active =>
    have hw : unit.active = some v := hw
    -- enabling and disabling do not set this switch
    have hfirst : putAll .active (if unit.enabled = some true ∧ !state.isEnabled then [.enable] else [])
        state.isActive = state.isActive := putAll_of_idle (by split <;> simp [UnitOp.sets?]) _
    rw [putAll_of_idle (by split <;> simp [UnitOp.sets?])]
    show putAll .active _ (putAll .active _ (putAll .active _ state.isActive)) = v
    rw [hfirst]
    cases hstate : state.isActive with
    | false =>
      rw [refreshment_eq_nil (.inl hstate)]
      cases v <;> simp [activation, hw, hstate, putAll, UnitOp.put, UnitOp.sets?]
    | true =>
      cases v with
      | false =>
        rw [refreshment_eq_nil (.inr hw)]
        simp [activation, hw, hstate, putAll, UnitOp.put, UnitOp.sets?]
      | true =>
        -- the unit runs already; a refresh leaves it running
        simp only [activation, refreshment, hw, hstate]
        rcases unit.refresh with _ | _ | _ <;> rfl

/-- Undoing all that could have been missing turns back each switch that is asked for. -/
theorem takeBack_desiredOps (unit : ServiceUnit) (b : Switch) (x : Bool) :
    takeBack b (desiredOps unit) x = (unit.wanted b).elim x (!·) := by
  obtain ⟨name, enabled, active, reload, refresh⟩ := unit
  rcases enabled with _ | _ | _ <;> rcases active with _ | _ | _ <;> cases b <;> rfl

/-- A switch that is where it was or where it is wanted, when operations took it back, is
back already or is taken back together with all that could have been missing. -/
theorem takeBack_assumed {ops : List UnitOp} {x₀ x y : Bool} (h : takeBack b ops x = x₀)
    (hy : y = x ∨ unit.wanted b = some y) : y = x₀ ∨ takeBack b (ops ++ desiredOps unit) y = x₀ := by
  rw [takeBack_append, takeBack_desiredOps]
  by_cases hturned : ∃ op ∈ ops, (op.turned? b).isSome
  -- operations that turned the switch take it back from wherever it is
  · obtain ⟨op, hop, hsome⟩ := hturned
    obtain ⟨v, hv⟩ := Option.isSome_iff_exists.1 hsome
    right
    rw [← h]
    exact takeBack_of_turned hop hv _ _
  · have hidle : ∀ op ∈ ops, op.turned? b = none := by simpa using hturned
    rw [takeBack_of_idle hidle] at h ⊢
    obtain rfl | hw := hy
    · exact .inl h
    · rw [hw]
      cases y <;> cases x₀ <;> simp

end Units

end Provision
