import Provision.Proofs.Mock.Stage
import Provision.Proofs.Run.Plan

/-!
# What steps on different sites have to do with each other

Every action is about one site: a target or a unit. What one step does leaves every other
site alone, whatever fails.

* `Site`, `StepAction.site`, `Host.holds`: a site, and what a host holds there.
* `Answers.holds`: **a call of an action changes nothing at another site.**
* `Stage.Lawful.ensures_elsewhere`: neither does all that serves the action.
* `Registry.UnitsDiffer`: no two service steps are about one unit.
* `Built.plan_apart`: **then the steps of a plan are about different sites.**
-/

namespace Provision

open Script

/-- What an action is about. -/
inductive Site where
  | target (path : Path)
  | unit (name : String)

namespace Site

/-- Whether two sites are one. -/
def same : Site → Site → Bool
  | target p, target q => p.same q
  | unit name, unit name' => name = name'
  | target _, unit _ | unit _, target _ => false

theorem same_symm {site site' : Site} (h : site.same site' = true) : site'.same site = true := by
  cases site <;> cases site' <;> simp only [same, decide_eq_true_eq, Bool.false_eq_true] at h ⊢
  · exact Path.same_symm h
  · exact h.symm

theorem not_same_symm {site site' : Site} (h : site.same site' = false) : site'.same site = false := by
  rw [Bool.eq_false_iff] at h ⊢
  exact fun h' => h (same_symm h')

end Site

/-- The target or the unit of an action. -/
def StepAction.site : StepAction → Site
  | mount spec => .target spec.target
  | service unit => .unit unit.unitName

namespace Mock

/-- What a host holds at a site: the file systems mounted there, or the flags of the unit. -/
def Host.holds (h : Host) : Site → List MountEntry ⊕ Option Flags
  | .target path => .inl (Mount.stack path h.table.entries)
  | .unit name => .inr (h.manager.unit? name)

theorem Host.holds_congr (h : Host) {site site' : Site} (hsame : site.same site' = true) :
    h.holds site = h.holds site' := by
  cases site <;> cases site' <;> simp only [Site.same, decide_eq_true_eq, Bool.false_eq_true] at hsame
  · rw [Host.holds, Host.holds, Mount.stack_congr hsame]
  · rw [hsame]

theorem Host.holds_of_manager {h h' : Host} (htable : h'.table = h.table) {name : String}
    (hunit : ∀ n, n ≠ name → h'.manager.unit? n = h.manager.unit? n) {site : Site}
    (hsite : site.same (.unit name) = false) : h'.holds site = h.holds site := by
  cases site with
  | target path => rw [Host.holds, Host.holds, htable]
  | unit n =>
    have hn : n ≠ name := by simpa [Site.same] using hsite
    rw [Host.holds, Host.holds, hunit n hn]

theorem Host.holds_of_table {h h' : Host} (hmanager : h'.manager = h.manager) {target : Path}
    (hstack : ∀ p, p.same target = false →
      Mount.stack p h'.table.entries = Mount.stack p h.table.entries) {site : Site}
    (hsite : site.same (.target target) = false) : h'.holds site = h.holds site := by
  cases site with
  | target path => rw [Host.holds, Host.holds, hstack path hsite]
  | unit n => rw [Host.holds, Host.holds, hmanager]

/-- What the host makes of a call of an action changes nothing at another site. -/
theorem Host.holds_answer (h : Host) {c : HostCall} {action : StepAction} {site : Site}
    (hc : c.serves action) (hsite : site.same action.site = false) :
    (Host.answer c h).2.holds site = h.holds site := by
  cases action with
  | mount spec =>
    cases c with
    | find _ => rfl
    | mount _ =>
      obtain rfl := hc
      refine holds_of_table ?_ (fun p hp => ?_) hsite
      · rfl
      · exact Mount.stack_mount hp
    | unmount _ =>
      obtain rfl := hc
      refine holds_of_table ?_ (fun p hp => ?_) hsite
      · rfl
      · exact Mount.stack_unmount hp
    | _ => exact hc.elim
  | service unit =>
    cases c with
    | unitState _ => rfl
    | issue op _ | undo op _ =>
      obtain rfl := hc
      refine holds_of_manager ?_ (fun n hn => ?_) hsite
      · rfl
      · exact Manager.unit?_issue_of_ne hn
    | reloadManager => exact holds_of_manager rfl (fun _ _ => rfl) hsite
    | _ => exact hc.elim

/-- **A call of an action changes nothing at another site**, whether it fails or not. -/
theorem Answers.holds {may : Prop} {c : HostCall} {h h' : Host} {x : c.Reply}
    (ha : Answers may c h x h') {action : StepAction} {site : Site} (hc : c.serves action)
    (hsite : site.same action.site = false) : h'.holds site = h.holds site := by
  have hlost : ∀ {op : UnitOp} {unit : String} {m : Manager},
      h.manager.carryOut op unit = (.ok (), m) → site.same (.unit unit) = false →
      Host.holds { h with manager := m } site = h.holds site := by
    intro op unit m hout hunit
    refine Host.holds_of_manager ?_ (fun n hn => ?_) hunit
    · rfl
    have hcarry : (h.manager.carryOut op unit).2.unit? n = h.manager.unit? n :=
      Manager.unit?_carryOut_of_ne hn
    rwa [hout] at hcarry
  cases ha with
  | answered heq _ =>
    rw [← (Prod.mk.inj heq).2]
    exact h.holds_answer hc hsite
  | refused e _ => rfl
  | lost reason _ hout =>
    cases action with
    | mount spec => exact hc.elim
    | service unit =>
      obtain rfl := hc
      exact hlost hout hsite
  | lostUndo reason _ hout =>
    cases action with
    | mount spec => exact hc.elim
    | service unit =>
      obtain rfl := hc
      exact hlost hout hsite

end Mock

/-- **What serves an action leaves the other sites alone**, whatever fails. -/
theorem Stage.Lawful.ensures_elsewhere {w : Setting Effect.interface Stage} (hw : Lawful w) {α : Type}
    {p : Effects α} {action : StepAction} (hp : p.Only (Effect.serves action)) (s : Stage) :
    p.Ensures w (fun t => t.saved = s.saved ∧
      ∀ site : Site, site.same action.site = false → t.host.holds site = s.host.holds site)
      (fun _ _ => True) s := by
  refine hp.ensures (fun t e x t' he ht hx => ?_) ⟨rfl, fun _ _ => rfl⟩
  refine ⟨(hw.saved_eq he hx).trans ht.1, fun site hsite => ?_⟩
  cases e with
  | host c =>
    obtain ⟨h, ha, rfl⟩ := hw t _ x _ hx
    exact (ha.holds he hsite).trans (ht.2 site hsite)
  | resolve _ | pause _ =>
    obtain rfl : t' = t := hw t _ x _ hx
    exact ht.2 site hsite
  | _ => exact he.elim

namespace Registry

variable {r r' : Registry}

/-- No two service steps are about one unit. -/
def UnitsDiffer (r : Registry) : Prop :=
  r.steps.Pairwise fun a b => ∀ unit unit', a.action = .service unit → b.action = .service unit' →
    unit.unitName ≠ unit'.unitName

/-- Two steps are about different sites. -/
def Apart (a b : Step) : Prop := a.action.site.same b.action.site = false

theorem Apart.symm {a b : Step} (h : Apart a b) : Apart b a := Site.not_same_symm h

theorem UnitsDiffer.perm (h : r.UnitsDiffer) (hperm : r.steps.Perm r'.steps) : r'.UnitsDiffer :=
  (hperm.pairwise_iff fun {_ _} hab unit unit' ha hb hname => hab unit' unit hb ha hname.symm).1 h

/-- A file system is mounted where no registered step mounts one. -/
theorem rival_of_register {step : Step} {target : Path} (h : r.register step = .ok r')
    (htarget : step.action.mountTarget? = some target) : r.rival? target = none := by
  unfold register at h
  rw [htarget] at h
  split at h
  · cases h
  · dsimp only at h
    split at h
    · cases h
    · assumption

/-- No two steps mount a file system at one target. -/
theorem Built.targets_differ (h : Built r) : r.steps.Pairwise fun a b =>
    ∀ p q, a.action.mountTarget? = some p → b.action.mountTarget? = some q → p.same q = false := by
  induction h with
  | empty => exact .nil
  | register _ hr ih =>
    obtain ⟨-, rfl⟩ := register_eq hr
    refine List.pairwise_append.2 ⟨ih, List.pairwise_singleton _ _, fun a ha b hb p q hp hq => ?_⟩
    rw [List.mem_singleton.1 hb] at hq
    have hrival := List.find?_eq_none.1 (rival_of_register hr hq) a ha
    rw [hp] at hrival
    simpa using hrival

/-- The steps of a registry are about different sites. -/
theorem Built.apart (h : Built r) (hu : r.UnitsDiffer) : r.steps.Pairwise Apart := by
  refine (h.targets_differ.and hu).imp fun {a b} hab => ?_
  obtain ⟨htargets, hunits⟩ := hab
  unfold Apart
  cases ha : a.action with
  | mount spec =>
    cases hb : b.action with
    | mount spec' => exact htargets _ _ (by rw [ha]; rfl) (by rw [hb]; rfl)
    | service unit => rfl
  | service unit =>
    cases hb : b.action with
    | mount spec => rfl
    | service unit' => simpa [StepAction.site, Site.same] using hunits unit unit' ha hb

/-- **The steps of a plan are about different sites.** -/
theorem Built.plan_apart (h : Built r) (hu : r.UnitsDiffer) {plan : RunPlan} (hplan : r.plan = .ok plan) :
    plan.steps.Pairwise Apart :=
  ((plan_perm hplan).pairwise_iff fun {_ _} hab => Apart.symm hab).2 (h.apart hu)

end Registry

end Provision
