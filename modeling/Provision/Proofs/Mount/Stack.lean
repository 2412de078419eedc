import Provision.Action.Apply
import Provision.Mock.Table
import Provision.Proofs.Action.Requests
import Provision.Proofs.Retry

/-!
# Watching the mount table

What applying an action and undoing a change do to the mount table, when mounting
and unmounting can fail and the table can always be read.

* `Mount.stack`: the entries at a target; `topmost` is the last one of them.
* `Mount.standing`: the setting, of which the table is seen.
* `ensures_apply_mount`: **an action adds its file system where nothing was mounted and
  says so, or leaves the table alone**.
* `ensures_rollback_mount`: **undoing a change takes its file system down, if it is on
  top**, or says that it failed.
-/

namespace Provision

/-- The entry that mounting a file system adds is the file system that was asked for. -/
theorem MountEntry.satisfies_ofSpec (resolve : Path → Option Path) (spec : MountSpec) :
    (MountEntry.ofSpec spec).satisfies resolve spec = true := by
  have htarget : Mount.sameTarget resolve spec.target spec.target = true := by
    simp [Mount.sameTarget]
  have hsource : Mount.sameSource resolve spec.source spec.source = true := by
    simp [Mount.sameSource]
  have hoptions : ((spec.options.filter (!Mount.isUserspace ·)).all fun option =>
      spec.options.any (Mount.optionMatches · option)) = true := by
    rw [List.all_eq_true]
    intro option h
    rw [List.any_eq_true]
    exact ⟨option, (List.mem_filter.1 h).1, by simp [Mount.optionMatches]⟩
  simp [satisfies, ofSpec, htarget, hsource, hoptions]

theorem Path.not_same_symm {p q : Path} (h : p.same q = false) : q.same p = false := by
  rw [Bool.eq_false_iff] at h ⊢
  exact fun h' => h (same_symm h')

namespace Mount

open Script

variable {t t' : List MountEntry} {p q : Path} {spec : MountSpec}

/-- The entries at a target, the topmost one last. -/
def stack (target : Path) (t : List MountEntry) : List MountEntry :=
  t.filter (·.target.same target)

/-- The topmost entry at a target. -/
def topmost (target : Path) (t : List MountEntry) : Option MountEntry :=
  t.reverse.find? (·.target.same target)

/-- The table without the topmost entry at a target. -/
def takeDown (target : Path) (t : List MountEntry) : Option (List MountEntry) :=
  (Mock.Table.dropFirst target t.reverse).map List.reverse

theorem stack_congr (h : p.same q = true) (t : List MountEntry) : stack p t = stack q t := by
  refine List.filter_congr fun e _ => ?_
  rw [Bool.eq_iff_iff]
  exact ⟨fun he => Path.same_trans he h, fun he => Path.same_trans he (Path.same_symm h)⟩

theorem stack_append (p : Path) (t t' : List MountEntry) : stack p (t ++ t') = stack p t ++ stack p t' :=
  List.filter_append t t'

theorem stack_ofSpec (h : spec.target.same p = true) : stack p [.ofSpec spec] = [.ofSpec spec] :=
  List.filter_eq_self.2 (by simpa [MountEntry.ofSpec] using h)

theorem stack_ofSpec_of_not (h : spec.target.same p = false) : stack p [.ofSpec spec] = [] :=
  List.filter_eq_nil_iff.2 (by simpa [MountEntry.ofSpec] using h)

theorem topmost_eq (p : Path) (t : List MountEntry) : topmost p t = (stack p t).getLast? := by
  rw [topmost, stack, ← List.head?_filter, List.filter_reverse, List.head?_reverse]

/-- What is on top depends on what is mounted at the target only. -/
theorem topmost_of_stack {p : Path} {t t' : List MountEntry} (h : stack p t' = stack p t) :
    topmost p t' = topmost p t := by
  rw [topmost_eq, topmost_eq, h]

/-- The entry that was mounted last is on top. -/
theorem topmost_mounted (spec : MountSpec) (t : List MountEntry) :
    topmost spec.target (t ++ [.ofSpec spec]) = some (.ofSpec spec) := by
  rw [topmost_eq, stack_append, stack_ofSpec (Path.same_refl _), List.getLast?_concat]

/-- What was mounted last is taken down first. -/
theorem takeDown_mounted (spec : MountSpec) (t : List MountEntry) :
    takeDown spec.target (t ++ [.ofSpec spec]) = some t := by
  unfold takeDown
  rw [List.reverse_append]
  simp [Mock.Table.dropFirst, MountEntry.ofSpec]

theorem filter_dropFirst {l l' : List MountEntry} (h : Mock.Table.dropFirst p l = some l') :
    l'.filter (·.target.same q) =
      if p.same q then (l.filter (·.target.same q)).tail else l.filter (·.target.same q) := by
  -- the entry that is dropped is the first of those at `p`
  induction l generalizing l' with
  | nil => cases h
  | cons e rest ih =>
    unfold Mock.Table.dropFirst at h
    by_cases he : e.target.same p = true
    · rw [if_pos he] at h
      obtain rfl := Option.some.inj h
      by_cases hq : p.same q = true
      · rw [if_pos hq, List.filter_cons, if_pos (Path.same_trans he hq), List.tail_cons]
      · have he' : ¬e.target.same q = true := fun h' =>
          hq (Path.same_trans (Path.same_symm he) h')
        rw [if_neg hq, List.filter_cons, if_neg he']
    · rw [if_neg he] at h
      obtain ⟨rest', hrest, rfl⟩ := Option.map_eq_some_iff.1 h
      have ih' := ih hrest
      by_cases hq : p.same q = true
      · have he' : ¬e.target.same q = true := fun h' =>
          he (Path.same_trans h' (Path.same_symm hq))
        rw [if_pos hq] at ih' ⊢
        rw [List.filter_cons, List.filter_cons, if_neg he', if_neg he', ih']
      · rw [if_neg hq] at ih' ⊢
        rw [List.filter_cons, List.filter_cons, ih']

/-- Taking down the topmost entry at a target leaves the other targets alone. -/
theorem stack_takeDown (h : takeDown p t = some t') :
    stack q t' = if p.same q then (stack q t).dropLast else stack q t := by
  obtain ⟨l, hl, rfl⟩ := Option.map_eq_some_iff.1 h
  have hfilter := filter_dropFirst (q := q) hl
  unfold stack
  rw [List.filter_reverse, hfilter, List.filter_reverse]
  split
  · rw [List.tail_reverse, List.reverse_reverse]
  · rw [List.reverse_reverse]

/-- Mounting a file system leaves the other targets alone. -/
theorem stack_mount {m : Mock.Table} (h : p.same spec.target = false) :
    stack p (m.mount spec).2.entries = stack p m.entries := by
  have hne : spec.target.same p = false := Path.not_same_symm h
  unfold Mock.Table.mount
  dsimp only
  split
  · rfl
  · rw [stack_append, stack_ofSpec_of_not hne, List.append_nil]

/-- So does unmounting one. -/
theorem stack_unmount {m : Mock.Table} {target : Path} (h : p.same target = false) :
    stack p (m.unmount target).2.entries = stack p m.entries := by
  have hne : ¬target.same p = true := by simp [Path.not_same_symm h]
  unfold Mock.Table.unmount
  dsimp only
  split
  · rfl
  · split
    · rename_i entries hdrop
      have hdown : takeDown target m.entries = some entries.reverse := by
        rw [takeDown, hdrop]
        rfl
      rw [stack_takeDown hdown, if_neg hne]
    · rfl

/-! ### One attempt -/

/-- What a request makes of the mount table, which can always be read. -/
def Stands (t : List MountEntry) : (e : Effect) → e.Reply → List MountEntry → Prop
  | .host (.find target), r, t' => t' = t ∧ r = .ok (topmost target t)
  | .host (.mount spec), r, t' =>
    match r with
    | .ok _ => t' = t ++ [.ofSpec spec]
    | .error _ => t' = t
  | .host (.unmount target), r, t' =>
    match r with
    | .ok _ => takeDown target t = some t'
    | .error _ => t' = t
  | _, _, t' => t' = t

/-- The setting in which the mount table is seen. -/
def standing : Setting Effect.interface (List MountEntry) := fun t e r t' => Stands t e r t'

/-- What looking at the table tells of a request. -/
def Seen (spec : MountSpec) (t : List MountEntry) : Except HostError MountStatus → Prop
  | .ok .absent => stack spec.target t = []
  | .ok .matching => True
  | .ok (.conflicting _) =>
    stack spec.target t ≠ [] ∧ topmost spec.target t ≠ some (.ofSpec spec)
  | .error _ => False

theorem ensures_inspect (spec : MountSpec) (t : List MountEntry) :
    (inspect spec).Ensures standing (· = t) (fun r t' => t' = t ∧ Seen spec t r) t := by
  refine ensures_bind.2 ((ensures_call t).2 ⟨rfl, fun r t' hx => ?_⟩)
  obtain ⟨rfl, rfl⟩ := hx
  refine ⟨rfl, ?_⟩
  cases htop : topmost spec.target t' with
  | none =>
    rw [topmost_eq, List.getLast?_eq_none_iff] at htop
    exact ⟨rfl, rfl, htop⟩
  | some entry =>
    have hstack : stack spec.target t' ≠ [] := by
      intro h
      rw [topmost_eq, h] at htop
      cases htop
    refine ensures_bind.2 ((ensures_resolutions t').2 ⟨rfl, fun resolve t hx => ?_⟩)
    obtain rfl : t = t' := hx
    refine ⟨rfl, rfl, rfl, ?_⟩
    by_cases hsat : entry.satisfies resolve spec = true
    · rw [if_pos hsat]; trivial
    · rw [if_neg hsat]
      refine ⟨hstack, fun h => hsat ?_⟩
      rw [htop] at h
      rw [Option.some.inj h]
      exact MountEntry.satisfies_ofSpec resolve spec

/-- What mounting leaves of the table. -/
def Mounted (spec : MountSpec) (t : List MountEntry) :
    Except HostError Change → List MountEntry → Prop
  | .ok (.mount true), t' => stack spec.target t = [] ∧ t' = t ++ [.ofSpec spec]
  | .ok (.mount false), t' => t' = t
  | .ok (.service _), _ => False
  | .error _, t' => t' = t

/-- Where the table can be while a file system is being mounted. -/
def Mounting (spec : MountSpec) (t t' : List MountEntry) : Prop :=
  t' = t ∨ (stack spec.target t = [] ∧ t' = t ++ [.ofSpec spec])

/-- **Mounting** adds one entry where there was none, or leaves the table alone. What it
has mounted it finds to be what was asked for. -/
theorem ensures_mount (spec : MountSpec) (t : List MountEntry) :
    (mount spec).Ensures standing (Mounting spec t) (Mounted spec t) t := by
  have hlook : ∀ t', Mounting spec t t' → (inspect spec).Ensures standing (Mounting spec t)
      (fun r t'' => t'' = t' ∧ Seen spec t' r) t' := by
    intro t' ht'
    refine (ensures_inspect spec t').mono (fun _ _ _ _ _ hx => hx) ?_ fun _ _ _ h => h
    rintro t'' rfl
    exact ht'
  refine ensures_bind.2 ((hlook t (.inl rfl)).imp ?_)
  rintro (e | (_ | _ | observed)) t' - ⟨rfl, hseen⟩
  · exact ⟨.inl rfl, rfl⟩
  · refine ensures_bind.2 ((ensures_call t').2 ⟨.inl rfl, fun r t'' hx => ?_⟩)
    cases (r : Except HostError Unit) with
    | error e =>
      obtain rfl : t'' = t' := hx
      exact ⟨.inl rfl, .inl rfl, rfl⟩
    | ok _ =>
      -- the new entry is on top: the second look finds it, and finds it as requested
      obtain rfl : t'' = t' ++ [MountEntry.ofSpec spec] := hx
      refine ⟨.inr ⟨hseen, rfl⟩, ensures_bind.2 ((hlook _ (.inr ⟨hseen, rfl⟩)).imp ?_)⟩
      rintro (e | (_ | _ | observed)) t - ⟨rfl, hseen'⟩
      · exact hseen'.elim
      · have hstack : stack spec.target (t' ++ [.ofSpec spec]) = [] := hseen'
        rw [stack_append, stack_ofSpec (Path.same_refl _)] at hstack
        simp at hstack
      · exact ⟨.inr ⟨hseen, rfl⟩, hseen, rfl⟩
      · exact absurd (topmost_mounted spec t') hseen'.2
  · exact ⟨.inl rfl, rfl⟩
  · exact ⟨.inl rfl, rfl⟩

/-- Where the table can be while a change is being undone. -/
def Lowering (spec : MountSpec) (t t' : List MountEntry) : Prop :=
  t' = t ∨ takeDown spec.target t = some t'

/-- What undoing a mount leaves of the table. -/
def Lowered (spec : MountSpec) (t : List MountEntry) :
    Except HostError Unit → List MountEntry → Prop
  | .ok _, t' => (t' = t ∧ topmost spec.target t ≠ some (.ofSpec spec)) ∨ takeDown spec.target t = some t'
  | .error _, t' => t' = t

theorem ensures_unmount (spec : MountSpec) (t : List MountEntry) :
    (unmount spec.target).Ensures standing (Lowering spec t)
      (fun r t' => Lowered spec t (r.map fun _ => ()) t') t := by
  refine ensures_bind.2 ((ensures_call t).2 ⟨.inl rfl, fun r t' hx => ?_⟩)
  obtain ⟨rfl, rfl⟩ := hx
  refine ⟨.inl rfl, ?_⟩
  cases htop : topmost spec.target t' with
  | none => exact ⟨.inl rfl, .inl ⟨rfl, by rw [htop]; simp⟩⟩
  | some entry =>
    refine ensures_bind.2 ((ensures_call t').2 ⟨.inl rfl, fun r t'' hx => ?_⟩)
    cases (r : Except HostError Unit) with
    | error e =>
      obtain rfl : t'' = t' := hx
      exact ⟨.inl rfl, .inl rfl, rfl⟩
    | ok _ =>
      have hdown : takeDown spec.target t' = some t'' := hx
      exact ⟨.inr hdown, .inr hdown, .inr hdown⟩

/-- **Undoing a mount** takes down what is on top, if it is what was asked for. -/
theorem ensures_revert (spec : MountSpec) (t : List MountEntry) :
    (revert spec (.mount true)).Ensures standing (Lowering spec t) (Lowered spec t) t := by
  unfold revert
  rw [if_pos rfl]
  refine ensures_bind.2
    ((ensures_inspect spec t).mono (fun _ _ _ _ _ hx => hx) (fun t' ht' => .inl ht') ?_)
  rintro (e | (_ | _ | observed)) t' - ⟨rfl, hseen⟩
  · exact hseen.elim
  · refine ⟨.inl rfl, .inl ⟨rfl, ?_⟩⟩
    have hstack : stack spec.target t' = [] := hseen
    rw [topmost_eq, hstack]
    simp
  · exact ensures_bind.2 ((ensures_unmount spec t').imp fun _ _ ht hr => ⟨ht, hr⟩)
  · exact ⟨.inl rfl, .inl ⟨rfl, hseen.2⟩⟩

/-! ### Applying and undoing -/

theorem standing_pause (t : List MountEntry) (d : Duration) (x : Unit) (t' : List MountEntry)
    (h : standing t (.pause d) x t') : t' = t := h

/-- **An action mounts its file system where nothing was mounted and says so, or leaves the
table alone.** -/
theorem ensures_apply_mount (policy : Retry) (spec : MountSpec) (t : List MountEntry) :
    ((StepAction.mount spec).apply policy).Ensures standing (Mounting spec t) (Mounted spec t) t := by
  refine policy.ensures_repeating (· = t) standing_pause (fun t' ht' => ?_) rfl
  subst ht'
  refine (ensures_mount spec t').imp ?_
  rintro (e | change) t - hr
  · exact ⟨hr, fun _ _ _ => hr⟩
  · exact ⟨hr, fun e he => by cases he⟩

/-- **Undoing a mount takes its file system down, if it is on top**, or says that it
failed. -/
theorem ensures_rollback_mount (policy : Retry) (spec : MountSpec) (t : List MountEntry) :
    ((StepAction.mount spec).rollback policy (.mount true)).Ensures standing (Lowering spec t)
      (Lowered spec t) t := by
  refine policy.ensures_repeating (· = t) standing_pause (fun t' ht' => ?_) rfl
  subst ht'
  refine (ensures_revert spec t').imp ?_
  rintro (e | _) t - hr
  · exact ⟨hr, fun _ _ _ => hr⟩
  · exact ⟨hr, fun e he => by cases he⟩

/-- What is asked for a unit leaves the table alone. -/
theorem ensures_other {α : Type} {p : Effects α} {unit : ServiceUnit}
    (hp : p.Only (Effect.serves (.service unit))) (t : List MountEntry) :
    p.Ensures standing (· = t) (fun _ _ => True) t := by
  refine hp.ensures (fun t' e r t'' he ht hx => ?_) rfl
  subst ht
  cases e with
  | host c =>
    cases c with
    | find | mount | unmount => exact he.elim
    | _ => exact hx
  | _ => exact hx

end Mount

end Provision
