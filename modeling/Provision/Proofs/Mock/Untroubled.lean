import Provision.Proofs.Run.Sites

/-!
# A host on which no call is told to fail

Such a host answers every request of an action by a function, and what it answers depends on
what it holds at the site of the action only.

* `Host.Untroubled`: no call is told to fail; every request keeps it so.
* `Host.reply`: what the host replies to a request, and the host after it.
* `Host.reply_local`: **a reply, and what is held afterwards, depend on what was held at the site.**
* `run_local`: so does all that serves the action.
* `Stage.undisturbed`: the setting in which the host answers every call itself, logs are saved
  and nobody interrupts.
* `Stage.ensures_of_run`: what serves an action comes to what it comes to on the host.
-/

namespace Provision

open Script

namespace Mount

variable {p : Path} {t : List MountEntry}

/-- There is an entry to take down unless nothing is mounted. -/
theorem takeDown_eq_none : takeDown p t = none ↔ stack p t = [] := by
  have hdrop : ∀ l : List MountEntry,
      Mock.Table.dropFirst p l = none ↔ l.filter (·.target.same p) = [] := by
    intro l
    induction l with
    | nil => simp [Mock.Table.dropFirst]
    | cons e rest ih =>
      unfold Mock.Table.dropFirst
      by_cases he : e.target.same p = true
      · simp [he]
      · rw [if_neg he, Option.map_eq_none_iff, ih, List.filter_cons, if_neg he]
  rw [takeDown, Option.map_eq_none_iff, hdrop, List.filter_reverse, List.reverse_eq_nil_iff]
  rfl

end Mount

namespace Mock

/-- No call is told to fail. -/
structure Host.Untroubled (h : Host) : Prop where
  table : ∀ target, h.table.isFailing target = false
  manager : ∀ op unit, h.manager.mishap? op unit = none

namespace Table

variable {t : Table} {target : Path} {spec : MountSpec}

theorem mount_of_not_failing (h : t.isFailing spec.target = false) :
    (t.mount spec).1 = .ok () ∧ (t.mount spec).2.entries = t.entries ++ [.ofSpec spec] := by
  have hfailing : isFailing { t with mountCalls := t.mountCalls + 1 } spec.target = false := h
  unfold mount
  dsimp only
  rw [if_neg (by simp [hfailing])]
  exact ⟨rfl, rfl⟩

/-- Unmounting takes down the topmost entry, if there is one. -/
theorem unmount_of_not_failing (h : t.isFailing target = false) :
    (Mount.stack target t.entries = [] →
      (t.unmount target).1 = .error (.unmountFailed target "umount: not mounted") ∧
        (t.unmount target).2.entries = t.entries) ∧
    (Mount.stack target t.entries ≠ [] → (t.unmount target).1 = .ok () ∧
      Mount.stack target (t.unmount target).2.entries = (Mount.stack target t.entries).dropLast) := by
  have hfailing : isFailing { t with unmountCalls := t.unmountCalls + 1 } target = false := h
  have hdrop : dropFirst target t.entries.reverse = none ↔ Mount.stack target t.entries = [] := by
    rw [← Mount.takeDown_eq_none, Mount.takeDown, Option.map_eq_none_iff]
  unfold unmount
  dsimp only
  rw [if_neg (by simp [hfailing])]
  split
  · rename_i entries hentries
    have hdown : Mount.takeDown target t.entries = some entries.reverse := by
      rw [Mount.takeDown, hentries]
      rfl
    refine ⟨fun hnil => ?_, fun _ => ⟨rfl, ?_⟩⟩
    · rw [hdrop.2 hnil] at hentries
      cases hentries
    · rw [Mount.stack_takeDown hdown, if_pos (Path.same_refl _)]
  · rename_i hentries
    exact ⟨fun _ => ⟨rfl, rfl⟩, fun hne => absurd (hdrop.1 hentries) hne⟩

theorem isFailing_mount (p : Path) : (t.mount spec).2.isFailing p = t.isFailing p := by
  unfold mount
  dsimp only
  split <;> rfl

theorem isFailing_unmount (p : Path) : (t.unmount target).2.isFailing p = t.isFailing p := by
  unfold unmount
  dsimp only
  split
  · rfl
  · split <;> rfl

end Table

namespace Manager

variable {m m' : Manager} {op : UnitOp} {name : String}

/-- What is reported of a unit depends on the unit only. -/
theorem state_congr (h : m'.unit? name = m.unit? name) : m'.state name = m.state name := by
  unfold state
  rw [h]

/-- An operation that is not told to fail is carried out. -/
theorem issue_of_no_mishap (h : m.mishap? op name = none) :
    m.issue op name = (m.arrived op name).carryOut op name := by
  unfold issue
  rw [h]

theorem carryOut_of_unit? {u u' : Flags} (hu : m.unit? name = some u) (he : effect name u op = .ok u') :
    m.carryOut op name = (.ok (), m.setUnit name u') := by
  unfold carryOut
  rw [hu]
  dsimp only
  rw [he]

/-- What carrying out an operation comes to depends on the unit only. -/
theorem carryOut_congr (h : m'.unit? name = m.unit? name) :
    (m'.carryOut op name).1 = (m.carryOut op name).1 ∧
      (m'.carryOut op name).2.unit? name = (m.carryOut op name).2.unit? name := by
  unfold carryOut
  rw [h]
  cases hu : m.unit? name with
  | none =>
    refine ⟨rfl, ?_⟩
    dsimp only
    rw [h]
  | some u =>
    dsimp only
    cases effect name u op with
    | ok u' => exact ⟨rfl, by rw [unit?_setUnit, unit?_setUnit, if_pos rfl, if_pos rfl]⟩
    | error e => exact ⟨rfl, by rw [unit?_setUnit, unit?_setUnit, if_pos rfl, if_pos rfl]⟩

/-- What was told to fail is written down in the manager, and carrying out leaves it alone. -/
theorem scripted_carryOut : (m.carryOut op name).2.scripted = m.scripted := by
  unfold carryOut
  split
  · rfl
  · split <;> rfl

theorem mishap?_arrived (h : ∀ op name, m.mishap? op name = none) (op' : UnitOp) (name' : String) :
    (m.arrived op name).mishap? op' name' = none := by
  have hall : ∀ s ∈ m.scripted, ¬(s.op = op' ∧ s.unit = name' ∧ 0 < s.left) := by
    have hfind := h op' name'
    rw [mishap?, Option.map_eq_none_iff, List.find?_eq_none] at hfind
    intro s hs hmatch
    have hnone := hfind s hs
    simp only [Bool.and_eq_true, decide_eq_true_eq, not_and] at hnone
    exact hnone ⟨hmatch.1, hmatch.2.1⟩ hmatch.2.2
  rw [mishap?, Option.map_eq_none_iff, List.find?_eq_none]
  intro s hs
  obtain ⟨s₀, hs₀, rfl⟩ := List.mem_map.1 hs
  have hnone := hall s₀ hs₀
  simp only [Bool.and_eq_true, decide_eq_true_eq]
  rintro ⟨⟨hop, hunit⟩, hleft⟩
  split at hop <;> split at hunit <;> split at hleft <;> simp_all

/-- Nothing is told to fail by an operation. -/
theorem mishap?_issue (h : ∀ op name, m.mishap? op name = none) (op' : UnitOp) (name' : String) :
    (m.issue op name).2.mishap? op' name' = none := by
  rw [issue_of_no_mishap (h op name), mishap?, scripted_carryOut]
  exact mishap?_arrived h op' name'

end Manager

namespace Host

variable {h h' : Host} {links : Path → Option Path} {action : StepAction}

/-- The reply to a request, and the host after it. Requests that no action makes are answered
somehow. -/
def reply (links : Path → Option Path) : (e : Effect) → Host → e.Reply × Host
  | .host c, h => answer c h
  | .resolve _, h => (links, h)
  | e, h => ((Stage.play e ⟨h, []⟩).1, h)

/-- On a host on which no call is told to fail none ever is. -/
theorem Untroubled.answer (hh : h.Untroubled) (c : HostCall) : (Host.answer c h).2.Untroubled := by
  cases c with
  | find _ | unitState _ => exact hh
  | mount spec => exact ⟨fun p => (Table.isFailing_mount p).trans (hh.table p), hh.manager⟩
  | unmount target => exact ⟨fun p => (Table.isFailing_unmount p).trans (hh.table p), hh.manager⟩
  | issue op unit | undo op unit => exact ⟨hh.table, Manager.mishap?_issue hh.manager⟩
  | reloadManager => exact ⟨hh.table, hh.manager⟩

theorem Untroubled.reply (hh : h.Untroubled) (e : Effect) : (Host.reply links e h).2.Untroubled := by
  cases e with
  | host c => exact hh.answer c
  | _ => exact hh

theorem Untroubled.run {α : Type} (hh : h.Untroubled) (p : Effects α) :
    (p.run (Host.reply links) h).2.Untroubled := by
  induction p generalizing h with
  | done a => exact hh
  | ask r k ih => exact ih _ (hh.reply r)

/-- The reply to a call about a target, and what is mounted there afterwards, depend on what was
mounted there. -/
theorem answer_local_mount (hh : h.Untroubled) (hh' : h'.Untroubled) {spec : MountSpec} {c : HostCall}
    (hc : c.serves (.mount spec)) (hstack : Mount.stack spec.target h'.table.entries =
      Mount.stack spec.target h.table.entries) :
    (answer c h').1 = (answer c h).1 ∧ Mount.stack spec.target (answer c h').2.table.entries =
      Mount.stack spec.target (answer c h).2.table.entries := by
  cases c with
  | find target =>
    obtain rfl : target = spec.target := hc
    exact ⟨congrArg Except.ok (Mount.topmost_of_stack hstack), hstack⟩
  | mount spec' =>
    obtain rfl : spec = spec' := hc.symm
    obtain ⟨hreply, hentries⟩ := Table.mount_of_not_failing (hh.table spec.target)
    obtain ⟨hreply', hentries'⟩ := Table.mount_of_not_failing (hh'.table spec.target)
    refine ⟨hreply'.trans hreply.symm, ?_⟩
    show Mount.stack _ (h'.table.mount spec).2.entries = Mount.stack _ (h.table.mount spec).2.entries
    rw [hentries, hentries', Mount.stack_append, Mount.stack_append, hstack]
  | unmount target =>
    obtain rfl : target = spec.target := hc
    have hout := Table.unmount_of_not_failing (hh.table spec.target)
    have hout' := Table.unmount_of_not_failing (hh'.table spec.target)
    rw [hstack] at hout'
    by_cases hnil : Mount.stack spec.target h.table.entries = []
    · obtain ⟨hreply, hentries⟩ := hout.1 hnil
      obtain ⟨hreply', hentries'⟩ := hout'.1 hnil
      refine ⟨hreply'.trans hreply.symm, ?_⟩
      show Mount.stack _ (h'.table.unmount _).2.entries = Mount.stack _ (h.table.unmount _).2.entries
      rw [hentries, hentries', hstack]
    · obtain ⟨hreply, hentries⟩ := hout.2 hnil
      obtain ⟨hreply', hentries'⟩ := hout'.2 hnil
      exact ⟨hreply'.trans hreply.symm, hentries'.trans hentries.symm⟩
  | _ => exact hc.elim

/-- The reply to a call about a unit, and what becomes of the unit, depend on the unit. -/
theorem answer_local_unit (hh : h.Untroubled) (hh' : h'.Untroubled) {unit : ServiceUnit} {c : HostCall}
    (hc : c.serves (.service unit))
    (hunit : h'.manager.unit? unit.unitName = h.manager.unit? unit.unitName) :
    (answer c h').1 = (answer c h).1 ∧ (answer c h').2.manager.unit? unit.unitName =
      (answer c h).2.manager.unit? unit.unitName := by
  have hissue : ∀ op, (h'.manager.issue op unit.unitName).1 = (h.manager.issue op unit.unitName).1 ∧
      (h'.manager.issue op unit.unitName).2.unit? unit.unitName =
        (h.manager.issue op unit.unitName).2.unit? unit.unitName := by
    intro op
    rw [Manager.issue_of_no_mishap (hh.manager _ _), Manager.issue_of_no_mishap (hh'.manager _ _)]
    exact Manager.carryOut_congr hunit
  cases c with
  | unitState name =>
    obtain rfl : name = unit.unitName := hc
    exact ⟨congrArg Except.ok (Manager.state_congr hunit), hunit⟩
  | issue op name | undo op name =>
    obtain rfl : name = unit.unitName := hc
    exact hissue op
  | reloadManager => exact ⟨rfl, hunit⟩
  | _ => exact hc.elim

/-- **The reply to a request of an action, and what is held afterwards, depend on what was held
at the site of the action.** -/
theorem reply_local (links : Path → Option Path) (hh : h.Untroubled) (hh' : h'.Untroubled)
    {e : Effect} (he : e.serves action) (hsite : h'.holds action.site = h.holds action.site) :
    (reply links e h').1 = (reply links e h).1 ∧
      (reply links e h').2.holds action.site = (reply links e h).2.holds action.site := by
  cases e with
  | host c =>
    cases action with
    | mount spec =>
      obtain ⟨hreply, hafter⟩ := answer_local_mount hh hh' he (Sum.inl.inj hsite)
      exact ⟨hreply, congrArg Sum.inl hafter⟩
    | service unit =>
      obtain ⟨hreply, hafter⟩ := answer_local_unit hh hh' he (Sum.inr.inj hsite)
      exact ⟨hreply, congrArg Sum.inr hafter⟩
  | resolve _ | pause _ => exact ⟨rfl, hsite⟩
  | _ => exact he.elim

/-- **What serves an action comes to the same on hosts that hold the same at its site.** -/
theorem run_local {α : Type} {p : Effects α} (hp : p.Only (Effect.serves action)) (hh : h.Untroubled)
    (hh' : h'.Untroubled) (hsite : h'.holds action.site = h.holds action.site) :
    (p.run (reply links) h').1 = (p.run (reply links) h).1 ∧
      (p.run (reply links) h').2.holds action.site = (p.run (reply links) h).2.holds action.site := by
  induction p generalizing h h' with
  | done a => exact ⟨rfl, hsite⟩
  | ask r k ih =>
    obtain ⟨hreply, hafter⟩ := reply_local links hh hh' hp.1 hsite
    rw [run_ask, run_ask, hreply]
    exact ih _ (hp.2 _) (hh.reply r) (hh'.reply r) hafter

/-- What serves an action leaves the other sites alone. -/
theorem holds_run {α : Type} {p : Effects α} (hp : p.Only (Effect.serves action)) (h : Host) {site : Site}
    (hsite : site.same action.site = false) : (p.run (reply links) h).2.holds site = h.holds site := by
  induction p generalizing h with
  | done a => rfl
  | ask r k ih =>
    have hreply : (reply links r h).2.holds site = h.holds site := by
      cases r with
      | host c => exact h.holds_answer hp.1 hsite
      | _ => rfl
    exact (ih _ (hp.2 _) _).trans hreply

end Host

end Mock

namespace Stage

variable {links : Path → Option Path}

/-- What comes of a request where the host answers every call itself, the state directory is in
order and nobody interrupts. -/
def Undisturbed (links : Path → Option Path) (s : Stage) : (e : Effect) → e.Reply → Stage → Prop
  | .host c, x, s' =>
    x = (Mock.Host.answer c s.host).1 ∧ s' = { s with host := (Mock.Host.answer c s.host).2 }
  | .resolve _, x, s' => x = links ∧ s' = s
  | .save log, x, s' => x = .ok () ∧ s' = s.save log
  | .cancelled, x, s' => x = false ∧ s' = s
  | .lock, x, s' => x = .ok true ∧ s' = s
  | .prepare, x, s' => x = .ok () ∧ s' = s
  | .pause _, _, s' | .now, _, s' | .process, _, s' | .unlock, _, s' | .load _, _, s'
  | .latest, _, s' => s' = s

/-- The setting in which the host answers every call itself, the state directory is in order and
nobody interrupts. -/
def undisturbed (links : Path → Option Path) : Setting Effect.interface Stage :=
  fun s e x s' => s.Undisturbed links e x s'

theorem lawful_undisturbed : Lawful (undisturbed links) := by
  intro s e x s' hx
  cases e with
  | host c =>
    obtain ⟨rfl, rfl⟩ := hx
    exact ⟨_, .answered rfl fun _ => trivial, rfl⟩
  | save log =>
    obtain ⟨rfl, rfl⟩ := hx
    rfl
  | resolve _ | cancelled | lock | prepare => exact hx.2
  | _ => exact hx

/-- Every request gets a reply. -/
theorem serial_undisturbed (s : Stage) (e : Effect) : ∃ x s', undisturbed links s e x s' := by
  cases e with
  | host c => exact ⟨_, _, rfl, rfl⟩
  | resolve _ | save _ | cancelled | lock | prepare => exact ⟨_, _, rfl, rfl⟩
  | pause _ | unlock => exact ⟨(), s, rfl⟩
  | now => exact ⟨default, s, rfl⟩
  | process => exact ⟨1, s, rfl⟩
  | load id => exact ⟨.error (.runNotFound id), s, rfl⟩
  | latest => exact ⟨.error (.noRuns ""), s, rfl⟩

theorem undisturbed_play (s : Stage) (e : Effect) : undisturbed some s e (play e s).1 (play e s).2 := by
  cases e with
  | host c => exact ⟨rfl, rfl⟩
  | resolve _ | save _ | cancelled | lock | prepare => exact ⟨rfl, rfl⟩
  | _ => rfl

/-- A log that is saved is on disk. -/
theorem saving_undisturbed {always post : Stage → Prop} {log : RunLog} {s : Stage}
    (h : always (s.save log) ∧ post (s.save log)) :
    Saving (undisturbed links) always (fun _ _ => False) post log s := by
  rintro x s' ⟨rfl, rfl⟩
  exact h

/-- **What serves an action comes to what it comes to on the host**, and saves nothing. -/
theorem ensures_of_run (links : Path → Option Path) {α : Type} {p : Effects α} {action : StepAction}
    (hp : p.Only (Effect.serves action)) (s : Stage) :
    p.Ensures (undisturbed links) (fun _ => True) (fun a t =>
      a = (p.run (Mock.Host.reply links) s.host).1 ∧
        t = { s with host := (p.run (Mock.Host.reply links) s.host).2 }) s := by
  induction p generalizing s with
  | done a => exact ⟨trivial, rfl, rfl⟩
  | ask r k ih =>
    refine ⟨trivial, fun x s' hx => ?_⟩
    obtain ⟨hr, hk⟩ := hp
    cases r with
    | host c =>
      obtain ⟨rfl, rfl⟩ := hx
      exact ih (Mock.Host.answer c s.host).1 (hk _) { s with host := (Mock.Host.answer c s.host).2 }
    | resolve _ =>
      obtain ⟨rfl, rfl⟩ := hx
      exact ih x (hk _) s'
    | pause _ =>
      obtain rfl : s' = s := hx
      exact ih x (hk _) s'
    | _ => exact hr.elim

end Stage

end Provision
