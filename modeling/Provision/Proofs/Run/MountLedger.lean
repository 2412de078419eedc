import Provision.Proofs.Run.Ledger

/-!
# The ledgers of the mount table

The file systems that a run has mounted stand on top of what was mounted before, and come
down one after the other.

* `mounted`: the file systems that changes mounted.
* `TakesDown`, `targetLedger`: at a single target, where a change that could not be undone
  may be left behind.
* `Stacked`, `tableLedger`: in the whole table, where everything can be undone.
-/

namespace Provision

open Script Mount

namespace Orchestrator

variable {o : Orchestrator} {w : Setting Effect.interface Stage} {p : Path}
  {below t t' : List MountEntry} {made front : List Made} {m : Made} {s : Stage} {spec : MountSpec}
  {id : String}

/-- The file system that a change mounted. -/
def Made.spec? (m : Made) : Option MountSpec :=
  match m.action, m.change with
  | some (.mount spec), .mount true => some spec
  | _, _ => none

/-- A change is one that an action at a target made. -/
def Made.IsAt (target : Path) (m : Made) : Prop :=
  ∃ spec, m.action = some (.mount spec) ∧ spec.target.same target = true

theorem Made.spec?_service (id : String) (service : ServiceUnit) (change : Change) :
    Made.spec? ⟨id, some (.service service), change⟩ = none := rfl

/-- The file systems that changes mounted. -/
def mounted (made : List Made) : List MountSpec := made.filterMap Made.spec?

theorem mounted_concat (made : List Made) (m : Made) :
    mounted (made ++ [m]) = mounted made ++ m.spec?.toList := by
  rw [mounted, List.filterMap_append]
  cases h : m.spec? <;> simp [h, mounted]

theorem mem_mounted_concat : spec ∈ mounted (made ++ [m]) ↔ spec ∈ mounted made ∨ m.spec? = some spec := by
  rw [mounted_concat, List.mem_append, Option.mem_toList]

/-! ### One target -/

/-- At a target stands what stood there before, or a file system that one of the changes
mounted where there was nothing. -/
structure TakesDown (p : Path) (below : List MountEntry) (made : List Made) (t : List MountEntry) :
    Prop where
  vacant : ∀ spec ∈ mounted made, spec.target.same p = true → below = []
  stands : stack p t = below ∨
    ∃ spec ∈ mounted made, spec.target.same p = true ∧ stack p t = [.ofSpec spec]

namespace TakesDown

theorem congr (h : TakesDown p below made t) (heq : stack p t' = stack p t) : TakesDown p below made t' := by
  refine ⟨h.vacant, ?_⟩
  rw [heq]
  exact h.stands

/-- Nothing stood at a target where there is nothing. -/
theorem below_of_vacant (h : TakesDown p below made t) (hstack : stack p t = []) : below = [] := by
  obtain heq | ⟨spec, -, -, heq⟩ := h.stands
  · rw [← heq, hstack]
  · rw [hstack] at heq
    cases heq

/-- One more change, which has mounted nothing where something stood before. -/
theorem concat (h : TakesDown p below made t)
    (hm : ∀ spec, m.spec? = some spec → spec.target.same p = true → below = []) :
    TakesDown p below (made ++ [m]) t where
  vacant spec hspec hsame := by
    obtain hspec | hspec := mem_mounted_concat.1 hspec
    · exact h.vacant spec hspec hsame
    · exact hm spec hspec hsame
  stands := by
    obtain heq | ⟨spec, hspec, hsame, heq⟩ := h.stands
    · exact .inl heq
    · exact .inr ⟨spec, mem_mounted_concat.2 (.inl hspec), hsame, heq⟩

/-- One change less, if what it has mounted does not stand there. -/
theorem of_concat (h : TakesDown p below (front ++ [m]) t)
    (hm : ∀ spec, m.spec? = some spec → spec.target.same p = true → stack p t ≠ [.ofSpec spec]) :
    TakesDown p below front t where
  vacant spec hspec := h.vacant spec (mem_mounted_concat.2 (.inl hspec))
  stands := by
    obtain heq | ⟨spec, hspec, hsame, heq⟩ := h.stands
    · exact .inl heq
    · obtain hspec | hspec := mem_mounted_concat.1 hspec
      · exact .inr ⟨spec, hspec, hsame, heq⟩
      · exact absurd heq (hm spec hspec hsame)

/-- A change that mounts where there was nothing. -/
theorem mounted (h : TakesDown p below made t) (hstack : stack spec.target t = []) (id : String) :
    TakesDown p below (made ++ [⟨id, some (.mount spec), .mount true⟩]) (t ++ [.ofSpec spec]) := by
  by_cases hsame : spec.target.same p = true
  · have hbelow : below = [] := h.below_of_vacant (by rw [← stack_congr hsame, hstack])
    refine ⟨fun _ _ _ => hbelow, .inr ⟨spec, mem_mounted_concat.2 (.inr rfl), hsame, ?_⟩⟩
    rw [stack_append, stack_ofSpec hsame, ← stack_congr hsame, hstack]
    rfl
  · refine (h.congr ?_).concat fun spec' hspec' hsame' => ?_
    · rw [stack_append, stack_ofSpec_of_not (by simpa using hsame), List.append_nil]
    · obtain rfl : spec = spec' := Option.some.inj hspec'
      exact absurd hsame' hsame

/-- Nothing is left at a target once what a change mounted there has come down. -/
theorem takenDown (h : TakesDown p below (front ++ [⟨id, some (.mount spec), .mount true⟩]) t)
    (hdown : takeDown spec.target t = some t') :
    TakesDown p below front t' ∧ (stack p t' = below ∨
      TakesDown p below (front ++ [⟨id, some (.mount spec), .mount true⟩]) t') := by
  have hstack := stack_takeDown (q := p) hdown
  by_cases hsame : spec.target.same p = true
  · have hbelow : below = [] := h.vacant spec (mem_mounted_concat.2 (.inr rfl)) hsame
    -- one file system of the run stood there, if any, and it is the one that came down
    have hempty : stack p t' = below := by
      rw [hstack, if_pos hsame, hbelow]
      obtain heq | ⟨spec', -, -, heq⟩ := h.stands
      · rw [heq, hbelow]; rfl
      · rw [heq]; rfl
    exact ⟨⟨fun _ _ _ => hbelow, .inl hempty⟩, .inl hempty⟩
  · rw [if_neg hsame] at hstack
    refine ⟨(h.congr hstack).of_concat fun spec' hspec' hsame' => ?_, .inr (h.congr hstack)⟩
    obtain rfl : spec = spec' := Option.some.inj hspec'
    exact absurd hsame' hsame

end TakesDown

theorem takesDown_nil (p : Path) (t : List MountEntry) : TakesDown p (stack p t) [] t :=
  ⟨by simp [mounted], .inl rfl⟩

/-- Once nothing is left, what stood at a target before stands there. -/
theorem TakesDown.stack_eq (h : TakesDown p below [] t) : stack p t = below := by
  obtain heq | ⟨spec, hspec, -⟩ := h.stands
  · exact heq
  · cases hspec

/-- What a unit is asked for leaves the table alone. -/
theorem ensures_tableAside (hw : Stage.Lawful w) {α : Type} {q : Effects α} {service : ServiceUnit}
    (hq : q.Only (Effect.serves (.service service)))
    (hfind : ∀ target, Stage.Succeeds w (.find target)) :
    q.Ensures w (fun t => t.saved = s.saved ∧
      t.host.table.entries = s.host.table.entries) (fun _ _ => True) s :=
  (hw.ensures_of_table hq hfind (Mount.ensures_other hq _)).imp fun _ _ _ _ => trivial

/-- **Applying an action** adds what comes down again. -/
theorem ensures_apply_takesDown (hw : Stage.Lawful w)
    (hfind : ∀ target, Stage.Succeeds w (.find target)) (id : String) (action : StepAction)
    (h : TakesDown p below made s.host.table.entries) :
    (action.apply o.retry).Ensures w
      (fun t => t.saved = s.saved ∧ (stack p t.host.table.entries = below ∨
        TakesDown p below (made ++ [⟨id, some action, action.assumedChange⟩]) t.host.table.entries))
      (onResult (fun change t =>
          TakesDown p below (made ++ [⟨id, some action, change⟩]) t.host.table.entries)
        fun _ t => TakesDown p below made t.host.table.entries) s := by
  have honly := action.only_apply o.retry
  cases action with
  | service service =>
    -- no file system is among what a unit is asked for
    have hnone : ∀ change spec, Made.spec? ⟨id, some (.service service), change⟩ = some spec →
        spec.target.same p = true → below = [] := fun _ _ hspec => by cases hspec
    refine (ensures_tableAside hw honly hfind).mono (fun _ _ _ _ _ hx => hx) ?_ ?_
    · rintro t ⟨hsaved, ht⟩
      rw [ht]
      exact ⟨hsaved, .inr (h.concat (hnone _))⟩
    · rintro (e | change) t ⟨-, ht⟩ -
      · rw [onResult_error, ht]
        exact h
      · rw [onResult_ok, ht]
        exact h.concat (hnone _)
  | mount spec =>
    refine (hw.ensures_of_table honly hfind
      (ensures_apply_mount o.retry spec _)).mono (fun _ _ _ _ _ hx => hx) ?_ ?_
    · rintro t ⟨hsaved, ht | ⟨hstack, ht⟩⟩
      · rw [ht]
        refine ⟨hsaved, h.stands.imp_right ?_⟩
        rintro ⟨spec', hspec', hsame', -⟩
        exact h.concat fun _ _ _ => h.vacant spec' hspec' hsame'
      · rw [ht]
        exact ⟨hsaved, .inr (h.mounted hstack id)⟩
    · rintro (e | (_ | _) | ops) t - ht
      · have ht : t.host.table.entries = s.host.table.entries := ht
        rw [onResult_error, ht]
        exact h
      · have ht : t.host.table.entries = s.host.table.entries := ht
        rw [onResult_ok, ht]
        exact h.concat fun _ hspec => by cases hspec
      · obtain ⟨hstack, ht⟩ := ht
        rw [onResult_ok, ht]
        exact h.mounted hstack id
      · exact ht.elim

/-- **Undoing a change** leaves what comes down again, unless it says that it failed. -/
theorem ensures_undo_takesDown (hw : Stage.Lawful w)
    (hfind : ∀ target, Stage.Succeeds w (.find target))
    (h : TakesDown p below (front ++ [m]) s.host.table.entries) (hfits : m.Fits) :
    (o.undo m).Ensures w
      (fun t => t.saved = s.saved ∧ (stack p t.host.table.entries = below ∨
        TakesDown p below (front ++ [m]) t.host.table.entries))
      (fun r t => (r = .rolledBack → TakesDown p below front t.host.table.entries) ∧
        (r ≠ .rolledBack → m.IsAt p ∨ TakesDown p below front t.host.table.entries)) s := by
  obtain ⟨action, haction, hfit⟩ := hfits
  obtain ⟨id, _, change⟩ := m
  obtain rfl := haction
  refine ensures_undo rfl ?_
  have honly := action.only_rollback o.retry change
  cases action with
  | service service =>
    refine (ensures_tableAside hw honly hfind).mono (fun _ _ _ _ _ hx => hx) ?_ ?_
    · rintro t ⟨hsaved, ht⟩
      rw [ht]
      exact ⟨hsaved, .inr h⟩
    · rintro r t ⟨-, ht⟩ -
      have hdown : TakesDown p below front s.host.table.entries := h.of_concat fun _ hspec => by cases hspec
      rw [ht]
      exact ⟨fun _ => hdown, fun _ => .inr hdown⟩
  | mount spec =>
    cases change with
    | service ops => exact hfit.elim
    | mount mounted =>
      cases mounted with
      | false =>
        have hdown : TakesDown p below front s.host.table.entries :=
          h.of_concat fun _ hspec => by cases hspec
        exact ⟨⟨rfl, .inr h⟩, fun _ => hdown, fun _ => .inr hdown⟩
      | true =>
        refine (hw.ensures_of_table honly hfind
          (ensures_rollback_mount o.retry spec _)).mono (fun _ _ _ _ _ hx => hx) ?_ ?_
        · rintro t ⟨hsaved, ht | hdown⟩
          · rw [ht]
            exact ⟨hsaved, .inr h⟩
          · exact ⟨hsaved, (h.takenDown hdown).2⟩
        · rintro (e | _) t - ht
          -- it could not be unmounted: that matters only at the target itself
          · refine ⟨(fun hr => by cases hr), fun _ => ?_⟩
            have ht : t.host.table.entries = s.host.table.entries := ht
            by_cases hsame : spec.target.same p = true
            · exact .inl ⟨spec, rfl, hsame⟩
            · right
              rw [ht]
              refine h.of_concat fun spec' hspec' hsame' => ?_
              obtain rfl : spec = spec' := Option.some.inj hspec'
              exact absurd hsame' hsame
          · refine ⟨fun _ => ?_, (fun hr => by cases hr)⟩
            -- it was left alone, because it was not on top, or was taken down
            obtain ⟨ht, htop⟩ | hdown := ht
            · rw [ht]
              refine h.of_concat fun spec' hspec' hsame' heq => htop ?_
              obtain rfl : spec = spec' := Option.some.inj hspec'
              rw [topmost_eq, stack_congr hsame', heq]
              rfl
            · exact (h.takenDown hdown).1

/-- **What a run has mounted at a target comes down again**, or is left behind by a change that
could not be undone. -/
theorem targetLedger (fallible : Prop) (hw : Stage.Lawful w)
    (hfind : ∀ target, Stage.Succeeds w (.find target))
    (hclean : ¬fallible → ∀ c, c.goesForward = false → Stage.Succeeds w c) :
    Ledger o w fallible (·.IsAt p) (fun made h => TakesDown p below made h.table.entries)
      (fun made h => stack p h.table.entries = below ∨ TakesDown p below made h.table.entries) where
  lawful := hw
  covers_of_tracks := .inr
  apply _ id action h _ := ensures_apply_takesDown hw hfind id action h
  undo h hfits := ensures_undo_takesDown hw hfind h hfits
  clean hf _ _ hfits := Ledger.ensures_undo_clean (hclean hf) hfits

/-- The ledger of a target where none but calls that go forward fail. -/
theorem targetLedger_of_forward (hw : Stage.Lawful w)
    (hback : ∀ c, c.goesForward = false → Stage.Succeeds w c) :
    Ledger o w False (·.IsAt p) (fun made h => TakesDown p below made h.table.entries)
      (fun made h => stack p h.table.entries = below ∨ TakesDown p below made h.table.entries) :=
  targetLedger False hw (fun _ => hback _ rfl) fun _ => hback

/-! ### The whole table -/

/-- The table is what it was before, with what the changes mounted on top. -/
def Stacked (below : List MountEntry) (made : List Made) (t : List MountEntry) : Prop :=
  t = below ++ (mounted made).map .ofSpec

theorem stacked_nil : Stacked below [] t ↔ t = below := by
  rw [Stacked, mounted, List.filterMap_nil, List.map_nil, List.append_nil]

theorem stacked_concat : Stacked below (made ++ [m]) t ↔
    t = below ++ (mounted made).map .ofSpec ++ m.spec?.toList.map .ofSpec := by
  rw [Stacked, mounted_concat, List.map_append, List.append_assoc]

/-- **Applying an action** mounts on top of the table. -/
theorem ensures_apply_stacked (hw : Stage.Lawful w)
    (hfind : ∀ target, Stage.Succeeds w (.find target)) (id : String) (action : StepAction)
    (h : Stacked below made s.host.table.entries) :
    (action.apply o.retry).Ensures w (fun t => t.saved = s.saved)
      (onResult (fun change t => Stacked below (made ++ [⟨id, some action, change⟩]) t.host.table.entries)
        fun _ t => Stacked below made t.host.table.entries) s := by
  have honly := action.only_apply o.retry
  cases action with
  | service service =>
    refine (ensures_tableAside hw honly hfind).mono (fun _ _ _ _ _ hx => hx) (fun _ ht => ht.1) ?_
    rintro (e | change) t ⟨-, ht⟩ -
    · rw [onResult_error, ht]
      exact h
    · rw [onResult_ok, ht, stacked_concat, Made.spec?_service]
      exact h.trans (List.append_nil _).symm
  | mount spec =>
    refine (hw.ensures_of_table honly hfind
      (ensures_apply_mount o.retry spec _)).mono (fun _ _ _ _ _ hx => hx) (fun _ ht => ht.1) ?_
    rintro (e | (_ | _) | ops) t - ht
    · exact (show t.host.table.entries = s.host.table.entries from ht).trans h
    · have ht : t.host.table.entries = s.host.table.entries := ht
      rw [onResult_ok, ht, stacked_concat]
      exact h.trans (List.append_nil _).symm
    · rw [onResult_ok, ht.2, stacked_concat]
      exact congrArg (· ++ _) h
    · exact ht.elim

/-- **Undoing a change** takes down what is on top of the table, unless it says that it
failed. -/
theorem ensures_undo_stacked (hw : Stage.Lawful w)
    (hfind : ∀ target, Stage.Succeeds w (.find target))
    (h : Stacked below (front ++ [m]) s.host.table.entries) (hfits : m.Fits) :
    (o.undo m).Ensures w (fun t => t.saved = s.saved)
      (fun r t => (r = .rolledBack → Stacked below front t.host.table.entries) ∧
        (r ≠ .rolledBack → True)) s := by
  obtain ⟨action, haction, hfit⟩ := hfits
  obtain ⟨id, _, change⟩ := m
  obtain rfl := haction
  refine ensures_undo rfl ?_
  have honly := action.only_rollback o.retry change
  rw [stacked_concat] at h
  cases action with
  | service service =>
    refine (ensures_tableAside hw honly hfind).mono (fun _ _ _ _ _ hx => hx) (fun _ ht => ht.1) ?_
    rintro r t ⟨-, ht⟩ -
    refine ⟨fun _ => ?_, fun _ => trivial⟩
    rw [ht]
    exact h.trans (List.append_nil _)
  | mount spec =>
    obtain (_ | _) | ops := change
    · exact ⟨rfl, fun _ => h.trans (List.append_nil _), fun _ => trivial⟩
    · refine (hw.ensures_of_table honly hfind
        (ensures_rollback_mount o.retry spec _)).mono (fun _ _ _ _ _ hx => hx) (fun _ ht => ht.1) ?_
      rintro (e | _) t - ht
      · exact ⟨(fun hr => by cases hr), fun _ => trivial⟩
      · refine ⟨fun _ => ?_, fun _ => trivial⟩
        have hfull : s.host.table.entries =
            (below ++ (mounted front).map .ofSpec) ++ [.ofSpec spec] := h
        rw [hfull] at ht
        obtain ⟨-, htop⟩ | hdown := ht
        · exact absurd (topmost_mounted spec _) htop
        · exact (Option.some.inj ((takeDown_mounted spec _).symm.trans hdown)).symm
    · exact hfit.elim

/-- **The whole table comes to what it was** where none but calls that go forward fail. -/
theorem tableLedger (hw : Stage.Lawful w) (hback : ∀ c, c.goesForward = false → Stage.Succeeds w c) :
    Ledger o w False (fun _ => True) (fun made h => Stacked below made h.table.entries)
      (fun _ _ => True) where
  lawful := hw
  covers_of_tracks _ := trivial
  apply _ id action h _ := (ensures_apply_stacked hw (fun _ => hback _ rfl) id action h).mono
    (fun _ _ _ _ _ hx => hx) (fun _ ht => ⟨ht, trivial⟩) fun _ _ _ hr => hr
  undo h hfits := (ensures_undo_stacked hw (fun _ => hback _ rfl) h hfits).mono
    (fun _ _ _ _ _ hx => hx) (fun _ ht => ⟨ht, trivial⟩) fun _ _ _ hr => ⟨hr.1, fun _ => .inl trivial⟩
  clean _ _ _ hfits := Ledger.ensures_undo_clean hback hfits

end Orchestrator

end Provision
