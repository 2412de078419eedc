import Provision.Proofs.Run.Ledger

/-!
# The ledger of a switch

The changes that a run has made take each switch of a unit back to where it was.

* `Made.opsOn`: the operations on a unit that a change made.
* `TakesBack`: undoing the changes takes a switch back to where it was.
* `unitLedger`: **a run keeps it so**, as long as what undoes an operation on the unit while
  a step is in flight takes effect on the switch.
-/

namespace Provision

open Script Switch

namespace Orchestrator

variable {o : Orchestrator} {w : Setting Effect.interface Stage} {unit : String}
  {b : Switch} {x₀ : Bool} {made front : List Made} {m : Made} {s : Stage}

/-- A change is one that an action on a unit made. -/
def Made.IsOn (unit : String) (m : Made) : Prop :=
  ∃ service, m.action = some (.service service) ∧ service.unitName = unit

/-- The operations on a unit that a change made. -/
def Made.opsOn (unit : String) (m : Made) : List UnitOp :=
  match m.action, m.change with
  | some (.service service), .service ops => if service.unitName = unit then ops else []
  | _, _ => []

theorem Made.opsOn_service (id : String) (service : ServiceUnit) (ops : List UnitOp) :
    Made.opsOn service.unitName ⟨id, some (.service service), .service ops⟩ = ops := if_pos rfl

theorem Made.opsOn_of_not (h : ¬m.IsOn unit) : m.opsOn unit = [] := by
  obtain ⟨id, action, change⟩ := m
  unfold opsOn
  split
  · rename_i service ops haction hchange
    exact if_neg fun hname => h ⟨service, haction, hname⟩
  · rfl

/-- Undoing the changes takes a switch back to where it was. -/
def TakesBack (unit : String) (b : Switch) (x₀ : Bool) (made : List Made) (h : Mock.Host) : Prop :=
  takeBack b (made.flatMap (·.opsOn unit)) (h.manager.shows unit b) = x₀

theorem takesBack_concat {h : Mock.Host} : TakesBack unit b x₀ (made ++ [m]) h ↔
    takeBack b (made.flatMap (·.opsOn unit) ++ m.opsOn unit) (h.manager.shows unit b) = x₀ := by
  rw [TakesBack, List.flatMap_append, List.flatMap_singleton]

/-- A change that is not one of the unit takes nothing back. -/
theorem takesBack_of_not {h : Mock.Host} (hm : ¬m.IsOn unit) :
    TakesBack unit b x₀ (made ++ [m]) h ↔ TakesBack unit b x₀ made h := by
  rw [takesBack_concat, Made.opsOn_of_not hm, List.append_nil, TakesBack]

theorem TakesBack.congr {h h' : Mock.Host} (htracks : TakesBack unit b x₀ made h)
    (heq : h'.manager.shows unit b = h.manager.shows unit b) : TakesBack unit b x₀ made h' := by
  rw [TakesBack, heq]
  exact htracks

/-- What serves an action that is not on the unit leaves the switch where it is. -/
theorem ensures_aside (hw : Stage.Lawful w) {α : Type} {p : Effects α} {id : String}
    {action : StepAction} {change : Change} (hp : p.Only (Effect.serves action))
    (h : ¬Made.IsOn unit ⟨id, some action, change⟩) :
    p.Ensures w (fun t => t.saved = s.saved ∧
      t.host.manager.shows unit b = s.host.manager.shows unit b) (fun _ _ => True) s := by
  have hname : ∀ service, action = .service service → service.unitName ≠ unit := by
    rintro service rfl hname
    exact h ⟨service, rfl, hname⟩
  exact (hw.ensures_of_switch b False hp False.elim
    (Units.ensures_other hp hname _)).imp fun _ _ _ _ => trivial

/-- What undoes an operation on a unit while a step is in flight takes effect on a switch,
whatever the reply. -/
def TakesEffect (unit : String) (b : Switch) (w : Setting Effect.interface Stage) : Prop :=
  ∀ s op x t, w s (.host (.undo op unit)) x t → s.isInFlight = true →
    t.host.manager.shows unit b = op.put b (s.host.manager.shows unit b)

theorem takesEffect_of_succeeds (hw : Stage.Lawful w)
    (hback : ∀ c, c.goesForward = false → Stage.Succeeds w c) : TakesEffect unit b w :=
  fun s op x t hx _ => hw.shows_undo hx (hback (.undo op unit) rfl s x t hx) b

/-- **Applying an action** adds what takes the switch back. -/
theorem ensures_apply_takesBack (hw : Stage.Lawful w) (hundo : TakesEffect unit b w) (id : String)
    (action : StepAction) (h : TakesBack unit b x₀ made s.host) (hflight : s.isInFlight = true) :
    (action.apply o.retry).Ensures w
      (fun t => t.saved = s.saved ∧ (t.host.manager.shows unit b = x₀ ∨
        TakesBack unit b x₀ (made ++ [⟨id, some action, action.assumedChange⟩]) t.host))
      (onResult (fun change t => TakesBack unit b x₀ (made ++ [⟨id, some action, change⟩]) t.host)
        fun _ t => TakesBack unit b x₀ made t.host) s := by
  have honly := action.only_apply o.retry
  by_cases hon : Made.IsOn unit ⟨id, some action, action.assumedChange⟩
  · obtain ⟨service, haction, rfl⟩ := hon
    obtain rfl : action = .service service := Option.some.inj haction
    -- the step stays in flight while it is applied, since its requests save nothing
    have hsure : ∀ s' op x t, s'.saved = s.saved → w s' (.host (.undo op service.unitName)) x t →
        t.host.manager.shows service.unitName b =
          op.put b (s'.host.manager.shows service.unitName b) := by
      intro s' op x t hs' hx
      refine hundo s' op x t hx ?_
      rw [Stage.isInFlight, hs']
      exact hflight
    refine (hw.ensures_of_switch b True honly (fun _ => hsure)
      (Units.ensures_apply_switch o.retry service b _)).mono (fun _ _ _ _ _ hx => hx) ?_ ?_
    · rintro t ⟨hsaved, hy⟩
      refine ⟨hsaved, (Units.takeBack_assumed h hy).imp_right fun hback => ?_⟩
      rw [takesBack_concat, StepAction.assumedChange, Made.opsOn_service]
      exact hback
    · rintro (e | change) t - hr
      · exact h.congr hr
      · obtain ⟨ops, rfl, hback⟩ := hr
        rw [onResult_ok, takesBack_concat, Made.opsOn_service, takeBack_append, hback]
        exact h
  · have hon' : ∀ change, ¬Made.IsOn unit ⟨id, some action, change⟩ := fun _ => hon
    refine (ensures_aside hw (b := b) honly hon).mono (fun _ _ _ _ _ hx => hx) ?_ ?_
    · rintro t ⟨hsaved, hy⟩
      exact ⟨hsaved, .inr ((takesBack_of_not hon).2 (h.congr hy))⟩
    · rintro (e | change) t ⟨-, hy⟩ -
      · exact h.congr hy
      · exact (takesBack_of_not (hon' change)).2 (h.congr hy)

/-- **Undoing a change** leaves what takes the switch back, unless it says that it failed. -/
theorem ensures_undo_takesBack (hw : Stage.Lawful w) (h : TakesBack unit b x₀ (front ++ [m]) s.host)
    (hfits : m.Fits) :
    (o.undo m).Ensures w
      (fun t => t.saved = s.saved ∧ (t.host.manager.shows unit b = x₀ ∨
        TakesBack unit b x₀ (front ++ [m]) t.host))
      (fun r t => (r = .rolledBack → TakesBack unit b x₀ front t.host) ∧
        (r ≠ .rolledBack → m.IsOn unit ∨ TakesBack unit b x₀ front t.host)) s := by
  obtain ⟨action, haction, hfit⟩ := hfits
  obtain ⟨id, _, change⟩ := m
  obtain rfl := haction
  refine ensures_undo rfl ?_
  have honly := action.only_rollback o.retry change
  by_cases hon : Made.IsOn unit ⟨id, some action, change⟩
  · have hconcerns := hon
    obtain ⟨service, hservice, rfl⟩ := hon
    obtain rfl : action = .service service := Option.some.inj hservice
    cases change with
    | mount mounted => exact hfit.elim
    | service ops =>
      -- the operations of this change are the ones that are undone first
      rw [takesBack_concat, Made.opsOn_service] at h
      refine (hw.ensures_of_switch b False honly False.elim
        (Units.ensures_rollback_switch o.retry service b ops _)).mono (fun _ _ _ _ _ hx => hx) ?_ ?_
      · rintro t ⟨hsaved, hy⟩
        refine ⟨hsaved, .inr ?_⟩
        rw [takesBack_concat, Made.opsOn_service, takeBack_append, takeBack_of_between hy,
          ← takeBack_append]
        exact h
      · rintro r t - hy
        refine ⟨fun hr => ?_, fun _ => .inl hconcerns⟩
        obtain hy | ⟨-, hfailed⟩ := hy
        · rw [TakesBack, hy, ← takeBack_append]
          exact h
        · rw [hr] at hfailed
          cases hfailed
  · refine (ensures_aside hw (b := b) honly hon).mono (fun _ _ _ _ _ hx => hx) ?_ ?_
    · exact fun t ht => ⟨ht.1, .inr (h.congr ht.2)⟩
    · rintro r t ⟨-, hy⟩ -
      have hback := ((takesBack_of_not hon).1 h).congr hy
      exact ⟨fun _ => hback, fun _ => .inr hback⟩

/-- **The changes that a run has made take a switch back**, as long as what undoes an operation
on the unit while a step is in flight takes effect. -/
theorem unitLedger (fallible : Prop) (hw : Stage.Lawful w) (hundo : TakesEffect unit b w)
    (hclean : ¬fallible → ∀ c, c.goesForward = false → Stage.Succeeds w c) :
    Ledger o w fallible (·.IsOn unit) (TakesBack unit b x₀)
      (fun made h => h.manager.shows unit b = x₀ ∨ TakesBack unit b x₀ made h) where
  lawful := hw
  covers_of_tracks := .inr
  apply _ id action h hflight := ensures_apply_takesBack hw hundo id action h hflight
  undo h hfits := ensures_undo_takesBack hw h hfits
  clean hf _ _ hfits := Ledger.ensures_undo_clean (hclean hf) hfits

/-- The ledger of a switch where none but calls that go forward fail. -/
theorem unitLedger_of_forward (hw : Stage.Lawful w)
    (hback : ∀ c, c.goesForward = false → Stage.Succeeds w c) :
    Ledger o w False (·.IsOn unit) (TakesBack unit b x₀)
      (fun made h => h.manager.shows unit b = x₀ ∨ TakesBack unit b x₀ made h) :=
  unitLedger False hw (takesEffect_of_succeeds hw hback) fun _ => hback

end Orchestrator

end Provision
