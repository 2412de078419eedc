import Provision.Mock.Manager
import Provision.Proofs.Units.Switch

/-!
# The service manager in memory, switch by switch

* `Manager.shows`: where a switch of a unit is reported to be.
* `Manager.Moves`, `Manager.Agrees`: an operation took effect, or none did.
* `issue_spec`: **an operation that succeeds takes effect, and one that fails does so at
  most if its reply was lost**.
* `unit?_issue_of_ne`, `unit?_issue_ok`: what becomes of another unit, and of the unit itself.
-/

namespace Provision.Mock

/-- Where a switch of a unit is. -/
def Flags.get (u : Flags) : Switch → Bool
  | .enabled => u.enabled
  | .active => u.active

namespace Manager

variable {m m' : Manager} {op : UnitOp} {name n : String} {b : Switch}

/-- Where a switch of a unit is reported to be. -/
def shows (m : Manager) (name : String) (b : Switch) : Bool := (m.state name).reads b

theorem shows_eq (m : Manager) (name : String) (b : Switch) :
    m.shows name b = (m.unit? name).elim false (·.get b) := by
  unfold shows state
  cases m.unit? name with
  | none => cases b <;> decide
  | some u =>
    obtain ⟨enabled, active⟩ := u
    cases enabled <;> cases active <;> cases b <;> decide

theorem isLoaded_state : (m.state name).isLoaded = (m.unit? name).isSome := by
  unfold state
  cases m.unit? name <;> rfl

/-- Every unit of the manager in memory can be disabled. -/
theorem isFixed_state : (m.state name).isFixed = false := by
  unfold state
  cases m.unit? name with
  | none => decide
  | some u =>
    obtain ⟨enabled, active⟩ := u
    cases enabled <;> cases active <;> decide

theorem reads_state {u : Flags} (hu : m.unit? name = some u) (b : Switch) :
    (m.state name).reads b = u.get b := by
  have hshows := shows_eq m name b
  rw [hu] at hshows
  exact hshows

theorem unit?_setUnit (m : Manager) (name n : String) (u : Flags) :
    (m.setUnit name u).unit? n = if n = name then some u else m.unit? n := by
  by_cases hn : n = name
  · subst hn
    simp [setUnit, unit?]
  · have hlookup : ∀ l : List (String × Flags), (l.filter (·.1 ≠ name)).lookup n = l.lookup n := by
      intro l
      induction l with
      | nil => rfl
      | cons x rest ih =>
        obtain ⟨k, u'⟩ := x
        by_cases hk : k = name
        · have hb : (n == k) = false := by simpa [hk] using hn
          rw [List.filter_cons, if_neg (by simp [hk]), ih, List.lookup_cons, hb]
        · rw [List.filter_cons, if_pos (by simp [hk]), List.lookup_cons, List.lookup_cons, ih]
    have hb : (n == name) = false := by simpa using hn
    rw [if_neg hn]
    simp only [unit?, setUnit, List.lookup_cons, hb, hlookup]
    rfl

/-- An operation took effect on a unit, and nothing else changed. -/
def Moves (op : UnitOp) (name : String) (m m' : Manager) : Prop :=
  ∀ n b, m'.shows n b = if n = name then op.put b (m.shows n b) else m.shows n b

theorem Moves.of_ne (h : Moves op name m m') (hn : name ≠ n) (b : Switch) :
    m'.shows n b = m.shows n b := by
  rw [h n b, if_neg (Ne.symm hn)]

theorem Moves.self (h : Moves op name m m') (hn : name = n) (b : Switch) :
    m'.shows n b = op.put b (m.shows n b) := by
  rw [h n b, if_pos hn.symm]

/-- Nothing that is reported of a unit changed. -/
def Agrees (m m' : Manager) : Prop := ∀ n b, m'.shows n b = m.shows n b

theorem agrees_of_unit? (h : ∀ n, m'.unit? n = m.unit? n) : Agrees m m' := by
  intro n b
  rw [shows_eq, shows_eq, h]

/-- What an operation makes of a unit it makes of its switches. -/
theorem get_effect {u u' : Flags} (h : effect name u op = .ok u') (b : Switch) :
    u'.get b = op.put b (u.get b) := by
  cases op with
  | reload =>
    by_cases hactive : u.active = true
    · rw [effect, if_pos hactive] at h
      rw [← Except.ok.inj h]; rfl
    · rw [effect, if_neg hactive] at h
      cases h
  | _ => rw [← Except.ok.inj h]; cases b <;> rfl

theorem unit?_carryOut_error {e : HostError} (h : carryOut op name m = (.error e, m')) (n : String) :
    m'.unit? n = m.unit? n := by
  unfold carryOut at h
  cases hu : m.unit? name with
  | none =>
    simp only [hu] at h
    rw [(Prod.mk.inj h).2]
  | some u =>
    simp only [hu] at h
    split at h
    · cases h
    · rw [← (Prod.mk.inj h).2, unit?_setUnit]
      split
      · rename_i hn
        rw [hn, hu]
      · rfl

/-- An operation that is carried out takes effect. -/
theorem moves_carryOut (h : carryOut op name m = (.ok (), m')) : Moves op name m m' := by
  unfold carryOut at h
  cases hu : m.unit? name with
  | none => simp only [hu] at h; cases h
  | some u =>
    simp only [hu] at h
    split at h
    · rename_i u' heffect
      intro n b
      rw [← (Prod.mk.inj h).2, shows_eq, shows_eq, unit?_setUnit]
      split
      · rename_i hn
        rw [hn, hu]
        exact get_effect heffect b
      · rfl
    · cases h

/-- **An operation that succeeds takes effect, and one that fails does so at most if its
reply was lost.** -/
theorem issue_spec (op : UnitOp) (name : String) (m : Manager) :
    match m.issue op name with
    | (.ok _, m') => Moves op name m m'
    | (.error e, m') => Agrees m m' ∨ (e.isTransient = true ∧ Moves op name m m') := by
  -- that a call arrived is written down, but changes no unit
  have harrived : ∀ n, (m.arrived op name).unit? n = m.unit? n := fun _ => rfl
  have hmoves : ∀ {m'}, Moves op name (m.arrived op name) m' → Moves op name m m' := by
    intro m' h n b
    rw [h n b, shows_eq (m.arrived op name), harrived, ← shows_eq]
  unfold issue
  cases m.mishap? op name with
  | none =>
    cases hout : carryOut op name (m.arrived op name) with
    | mk r m' =>
      cases r with
      | ok _ => exact hmoves (moves_carryOut hout)
      | error e => exact .inl (agrees_of_unit? fun n => (unit?_carryOut_error hout n).trans (harrived n))
  | some mishap =>
    cases mishap with
    | lostReply =>
      dsimp only
      cases hout : carryOut op name (m.arrived op name) with
      | mk r m' =>
        cases r with
        | ok _ => exact .inr ⟨rfl, hmoves (moves_carryOut hout)⟩
        | error e => exact .inl (agrees_of_unit? fun n => (unit?_carryOut_error hout n).trans (harrived n))
    | _ => exact .inl (agrees_of_unit? harrived)

theorem unit?_carryOut_of_ne (hn : n ≠ name) : (m.carryOut op name).2.unit? n = m.unit? n := by
  unfold carryOut
  split
  · rfl
  · split <;> exact (unit?_setUnit _ _ _ _).trans (if_neg hn)

/-- An operation changes no other unit. -/
theorem unit?_issue_of_ne (hn : n ≠ name) : (m.issue op name).2.unit? n = m.unit? n := by
  have harrived : (m.arrived op name).unit? n = m.unit? n := rfl
  have hcarry : ((m.arrived op name).carryOut op name).2.unit? n = m.unit? n :=
    (unit?_carryOut_of_ne hn).trans harrived
  unfold issue
  split
  · exact hcarry
  · split <;> rename_i hout <;> rw [hout] at hcarry <;> exact hcarry
  · exact harrived

/-- An operation that succeeds was carried out on a unit that exists. -/
theorem unit?_issue_ok (h : m.issue op name = (.ok (), m')) :
    ∃ u u', m.unit? name = some u ∧ effect name u op = .ok u' ∧ m'.unit? name = some u' := by
  have hcarry : ∀ {m₀ : Manager}, m₀.carryOut op name = (.ok (), m') →
      ∃ u u', m₀.unit? name = some u ∧ effect name u op = .ok u' ∧ m'.unit? name = some u' := by
    intro m₀ h
    unfold carryOut at h
    split at h
    · cases h
    · rename_i u hu
      split at h
      · rename_i u' heffect
        refine ⟨u, u', hu, heffect, ?_⟩
        rw [← (Prod.mk.inj h).2, unit?_setUnit, if_pos rfl]
      · cases h
  unfold issue at h
  split at h
  · obtain ⟨u, u', hu, heffect, hu'⟩ := hcarry h
    exact ⟨u, u', hu, heffect, hu'⟩
  · split at h <;> cases h
  · cases h

/-! ### Several operations -/

/-- What several operations make of a unit. -/
def effects (name : String) (u : Flags) (ops : List UnitOp) : Except HostError Flags :=
  ops.foldlM (effect name) u

variable {u u' : Flags} {ops : List UnitOp}

theorem effects_cons (h : effects name u (op :: ops) = .ok u') :
    ∃ v, effect name u op = .ok v ∧ effects name v ops = .ok u' := by
  unfold effects at h
  rw [List.foldlM_cons] at h
  cases hv : effect name u op with
  | error e =>
    rw [hv] at h
    cases h
  | ok v =>
    rw [hv] at h
    exact ⟨v, rfl, h⟩

/-- What several operations make of a unit they make of its switches. -/
theorem get_effects (h : effects name u ops = .ok u') (b : Switch) :
    u'.get b = Switch.putAll b ops (u.get b) := by
  induction ops generalizing u with
  | nil =>
    obtain rfl : u = u' := Except.ok.inj h
    rfl
  | cons op rest ih =>
    obtain ⟨v, hv, hrest⟩ := effects_cons h
    rw [ih hrest, get_effect hv b]
    rfl

/-- Only a reload can be refused by a unit. -/
theorem exists_effects (name : String) (u : Flags) (h : ∀ op ∈ ops, op ≠ .reload) :
    ∃ u', effects name u ops = .ok u' := by
  induction ops generalizing u with
  | nil => exact ⟨u, rfl⟩
  | cons op rest ih =>
    obtain ⟨v, hv⟩ : ∃ v, effect name u op = .ok v := by
      cases op with
      | reload => exact absurd rfl (h _ List.mem_cons_self)
      | _ => exact ⟨_, rfl⟩
    obtain ⟨u', hu'⟩ := ih v fun op hop => h op (List.mem_cons_of_mem _ hop)
    refine ⟨u', ?_⟩
    rw [effects, List.foldlM_cons, hv]
    exact hu'

end Manager

/-- The switches of a unit are all there is to it. -/
theorem Flags.ext_get {u u' : Flags} (h : ∀ b, u'.get b = u.get b) : u' = u := by
  obtain ⟨enabled, active⟩ := u
  obtain ⟨enabled', active'⟩ := u'
  obtain rfl : enabled' = enabled := h .enabled
  obtain rfl : active' = active := h .active
  rfl

end Provision.Mock
