import Provision.Proofs.Mount.Matching
import Provision.Proofs.Run.Recovery
import Provision.Proofs.Run.Sites
import Provision.Proofs.Units.Turning

/-!
# What rolling back leaves alone

* `Facet`: what a run may change of a host: what is mounted at a target, or a switch of a unit.
* `Facet.SparedBy`: undoing a change leaves the facet as it is.
* `Facet.AskedBy`: an action asks for the facet to be as it is.
* `ensures_apply_spared`: the change that a step records spares what the step found, whatever fails.
* `ensures_spared`: **at every point of a run, the changes recorded on disk spare what was there
  before the run**.
-/

namespace Provision

open Script Mount Switch Orchestrator

/-- What a run may change of a host. -/
inductive Facet where
  /-- What is mounted at a target. -/
  | mounts (target : Path)
  | switch (unit : String) (b : Switch)

namespace Facet

variable {facet : Facet} {h h' host : Mock.Host} {m : Made} {action : StepAction}

/-- The target or the unit that a facet is about. -/
def site : Facet → Site
  | mounts target => .target target
  | switch unit _ => .unit unit

/-- The facet of a host. -/
def of : Facet → Mock.Host → List MountEntry ⊕ Bool
  | mounts target, h => .inl (stack target h.table.entries)
  | switch unit b, h => .inr (h.manager.shows unit b)

/-- Undoing a change leaves the facet as it is. -/
def SparedBy : Facet → Mock.Host → Made → Prop
  | mounts target, h, m => ∀ spec, m.spec? = some spec → spec.target.same target = true →
    ¬Matches spec h.table.entries
  | switch unit b, h, m => takeBack b (m.opsOn unit) (h.manager.shows unit b) = h.manager.shows unit b

/-- An action asks for the facet to be as it is. -/
def AskedBy : Facet → Mock.Host → StepAction → Prop
  | mounts target, h, .mount spec => spec.target.same target = true ∧ Matches spec h.table.entries
  | switch unit b, h, .service service =>
    service.unitName = unit ∧ service.wanted b = some (h.manager.shows unit b)
  | mounts _, _, .service _ | switch _ _, _, .mount _ => False

/-- No step changes the facet: something is mounted at the target. -/
def Lasts : Facet → Mock.Host → Prop
  | mounts target, h => stack target h.table.entries ≠ []
  | switch _ _, _ => False

theorem of_congr (hsite : h'.holds facet.site = h.holds facet.site) : facet.of h' = facet.of h := by
  cases facet with
  | mounts target => exact congrArg Sum.inl (Sum.inl.inj hsite)
  | switch unit b =>
    have hunit : h'.manager.unit? unit = h.manager.unit? unit := Sum.inr.inj hsite
    rw [of, of, Mock.Manager.shows_eq, Mock.Manager.shows_eq, hunit]

theorem SparedBy.congr (hspared : facet.SparedBy h m) (heq : facet.of h' = facet.of h) :
    facet.SparedBy h' m := by
  cases facet with
  | mounts target =>
    have hstack : stack target h'.table.entries = stack target h.table.entries := Sum.inl.inj heq
    rintro spec hspec hsame ⟨entry, links, htop, hsat⟩
    refine hspared spec hspec hsame ⟨entry, links, ?_, hsat⟩
    rw [← htop, topmost_eq, topmost_eq, stack_congr hsame, stack_congr hsame, hstack]
  | switch unit b =>
    have hshows : h'.manager.shows unit b = h.manager.shows unit b := Sum.inr.inj heq
    rw [SparedBy, hshows]
    exact hspared

theorem Lasts.congr (hlasts : facet.Lasts h) (heq : facet.of h' = facet.of h) : facet.Lasts h' := by
  cases facet with
  | mounts target =>
    have hstack : stack target h'.table.entries = stack target h.table.entries := Sum.inl.inj heq
    rw [Lasts, hstack]
    exact hlasts
  | switch unit b => exact hlasts.elim

/-- An action that is about the target or the unit of a facet is a mount there, or manages that
unit. -/
theorem about_cases (habout : action.site.same facet.site = true) :
    (∃ spec target, action = .mount spec ∧ facet = .mounts target ∧ spec.target.same target = true) ∨
      ∃ service b, action = .service service ∧ facet = .switch service.unitName b := by
  cases facet with
  | mounts target =>
    cases action with
    | mount spec => exact .inl ⟨spec, target, rfl, rfl, habout⟩
    | service service => cases habout
  | switch unit b =>
    cases action with
    | mount spec => cases habout
    | service service =>
      obtain rfl : service.unitName = unit := by simpa [StepAction.site, site, Site.same] using habout
      exact .inr ⟨service, b, rfl, rfl⟩

/-- A change of an action that is about something else spares the facet. -/
theorem spared_of_apart (hapart : action.site.same facet.site = false) (id : String) (change : Change) :
    facet.SparedBy h ⟨id, some action, change⟩ := by
  cases facet with
  | mounts target =>
    intro spec hspec hsame
    obtain ⟨hmount, -⟩ : action = .mount spec ∧ change = .mount true := by
      unfold Made.spec? at hspec
      split at hspec
      · rename_i spec' haction hchange
        obtain rfl := Option.some.inj hspec
        exact ⟨Option.some.inj haction, hchange⟩
      · cases hspec
    rw [hmount] at hapart
    exact absurd hsame (by simpa [StepAction.site, site, Site.same] using hapart)
  | switch unit b =>
    have hon : ¬Made.IsOn unit ⟨id, some action, change⟩ := by
      rintro ⟨service, haction, hname⟩
      obtain rfl : action = .service service := Option.some.inj haction
      simp [StepAction.site, site, Site.same, hname] at hapart
    rw [SparedBy, Made.opsOn_of_not hon]
    rfl

/-- What an action may have changed spares the facet, unless the action asks for it to be as it
is. -/
theorem spared_assumed (hasked : ¬facet.AskedBy h action) (id : String) :
    facet.SparedBy h ⟨id, some action, action.assumedChange⟩ := by
  by_cases habout : action.site.same facet.site = true
  · obtain ⟨spec, target, rfl, rfl, -⟩ | ⟨service, b, rfl, rfl⟩ := about_cases habout
    · intro spec' hspec hsame hmatches
      obtain rfl : spec = spec' := Option.some.inj hspec
      exact hasked ⟨hsame, hmatches⟩
    · rw [SparedBy, StepAction.assumedChange, Made.opsOn_service, Units.takeBack_desiredOps]
      cases hw : service.wanted b with
      | none => rfl
      | some v =>
        have hne : v ≠ h.manager.shows service.unitName b :=
          fun heq => hasked ⟨rfl, hw.trans (congrArg _ heq)⟩
        exact Bool.eq_not.2 hne.symm |>.symm
  · exact spared_of_apart (by simpa using habout) id _

end Facet

namespace Orchestrator

variable {o : Orchestrator} {w : Setting Effect.interface Stage} {facet : Facet} {host : Mock.Host}
  {rest : List Step} {log log' : RunLog} {made todo : List Made} {m : Made} {s t : Stage}

/-! ### One change -/

/-- What serves an action that is about something else leaves the facet as it is. -/
theorem ensures_apart (hw : Stage.Lawful w) {α : Type} {p : Effects α} {action : StepAction}
    (hp : p.Only (Effect.serves action)) (hapart : action.site.same facet.site = false) (s : Stage) :
    p.Ensures w (fun t => t.saved = s.saved ∧ facet.of t.host = facet.of s.host) (fun _ _ => True) s :=
  (hw.ensures_elsewhere hp s).mono (fun _ _ _ _ _ hx => hx)
    (fun _ ht => ⟨ht.1, Facet.of_congr (ht.2 _ (Site.not_same_symm hapart))⟩) fun _ _ _ _ => trivial

/-- What an action says about a mount spares the target, where it was as the action found it: that it
mounted something it says only where it found nothing. -/
theorem spared_of_mount {spec : MountSpec} {target : Path} {change : Change} {t : List MountEntry}
    (hon : spec.target.same target = true)
    (hsame : stack target s.host.table.entries = stack target host.table.entries) (id : String)
    (hmounted : Mounted spec s.host.table.entries (.ok change) t) :
    Facet.SparedBy (.mounts target) host ⟨id, some (.mount spec), change⟩ := by
  rintro spec' hspec - ⟨entry, links, htop, -⟩
  obtain (_ | _) | ops := change
  · cases hspec
  · obtain rfl : spec = spec' := Option.some.inj hspec
    have hempty : stack spec.target s.host.table.entries = [] := hmounted.1
    rw [topmost_eq, stack_congr hon, ← hsame, ← stack_congr hon, hempty] at htop
    cases htop
  · exact hmounted.elim

/-- **Applying an action** that finds the facet as it was records a change that spares it, whatever
fails; and it leaves alone what lasts. -/
theorem ensures_apply_spared (hw : Stage.Lawful w) (hfind : ∀ target, Stage.Succeeds w (.find target))
    (policy : Retry) (id : String) (action : StepAction)
    (hfresh : facet.of s.host = facet.of host ∨ action.site.same facet.site = false) :
    (action.apply policy).Ensures w
      (fun t => t.saved = s.saved ∧ (facet.Lasts s.host → facet.of t.host = facet.of s.host))
      (fun r _ => ∀ change, r = .ok change → facet.SparedBy host ⟨id, some action, change⟩) s := by
  have honly := action.only_apply policy
  by_cases habout : action.site.same facet.site = true
  · have hsame : facet.of s.host = facet.of host := by
      refine hfresh.resolve_right fun hapart => ?_
      rw [habout] at hapart
      cases hapart
    obtain ⟨spec, target, rfl, rfl, hon⟩ | ⟨service, b, rfl, rfl⟩ := Facet.about_cases habout
    · have hstack := stack_congr hon s.host.table.entries
      refine (hw.ensures_of_table honly hfind (ensures_apply_mount policy spec _)).mono
        (fun _ _ _ _ _ hx => hx) ?_ ?_
      · rintro t ⟨hsaved, ht | ⟨hempty, -⟩⟩
        · exact ⟨hsaved, fun _ => congrArg (fun entries => Sum.inl (stack target entries)) ht⟩
        · exact ⟨hsaved, fun hlasts => absurd (hstack.symm.trans hempty) hlasts⟩
      · rintro r t - ht change rfl
        exact spared_of_mount hon (Sum.inl.inj hsame) id ht
    · refine (hw.ensures_of_switch b False honly False.elim
        (Units.ensures_apply_turns policy service b _)).mono (fun _ _ _ _ _ hx => hx)
          (fun t ht => ⟨ht.1, fun hlasts => hlasts.elim⟩) ?_
      rintro r t - hr change rfl
      obtain ⟨ops, rfl, hops⟩ := hr change rfl
      have hshows : s.host.manager.shows service.unitName b = host.manager.shows service.unitName b :=
        Sum.inr.inj hsame
      rw [Facet.SparedBy, Made.opsOn_service, ← hshows]
      exact hops.takeBack
  · have hapart : action.site.same facet.site = false := by simpa using habout
    exact (ensures_apart hw honly hapart s).mono (fun _ _ _ _ _ hx => hx)
      (fun t ht => ⟨ht.1, fun _ => ht.2⟩)
      fun _ _ _ _ change _ => Facet.spared_of_apart hapart id change

/-- **Undoing a change that spares the facet** leaves it as it is. -/
theorem ensures_undo_spared (hw : Stage.Lawful w) (hfind : ∀ target, Stage.Succeeds w (.find target))
    (hspared : facet.SparedBy s.host m) (hfits : m.Fits) :
    (o.undo m).Ensures w
      (fun t => t.saved = s.saved ∧ (facet.Lasts s.host → facet.of t.host = facet.of s.host))
      (fun r t => (r = .rolledBack → facet.of t.host = facet.of s.host) ∧ (r ≠ .rolledBack → True)) s := by
  obtain ⟨action, haction, hfit⟩ := hfits
  obtain ⟨id, _, change⟩ := m
  obtain rfl := haction
  refine ensures_undo rfl ?_
  have honly := action.only_rollback o.retry change
  by_cases habout : action.site.same facet.site = true
  · obtain ⟨spec, target, rfl, rfl, -⟩ | ⟨service, b, rfl, rfl⟩ := Facet.about_cases habout
    · have hon : change = .mount true → spec.target.same target = true →
          ¬Matches spec s.host.table.entries := by
        rintro rfl hsame
        exact hspared spec rfl hsame
      refine (hw.ensures_of_table honly hfind (ensures_rollback_stack o.retry hon)).mono
        (fun _ _ _ _ _ hx => hx) (fun t ht => ⟨ht.1, fun _ => congrArg Sum.inl ht.2⟩) ?_
      rintro r t ⟨-, ht⟩ -
      exact ⟨fun _ => congrArg Sum.inl ht, fun _ => trivial⟩
    · obtain mounted | ops := change
      · exact hfit.elim
      rw [Facet.SparedBy, Made.opsOn_service] at hspared
      refine (hw.ensures_of_switch b False honly False.elim
        (Units.ensures_rollback_switch o.retry service b ops _)).mono (fun _ _ _ _ _ hx => hx)
          (fun t ht => ⟨ht.1, fun hlasts => hlasts.elim⟩) ?_
      rintro r t - (hy | ⟨-, hfailed⟩)
      · exact ⟨fun _ => congrArg Sum.inr (hy.trans hspared), fun _ => trivial⟩
      · refine ⟨fun hr => ?_, fun _ => trivial⟩
        rw [hr] at hfailed
        cases hfailed
  · refine (ensures_apart hw honly (by simpa using habout) s).mono (fun _ _ _ _ _ hx => hx)
      (fun t ht => ⟨ht.1, fun _ => ht.2⟩) ?_
    rintro r t ⟨-, ht⟩ -
    exact ⟨fun _ => ht, fun _ => trivial⟩

/-! ### A run -/

/-- The changes that a log records spare what a host holds. -/
def SparedIn (facet : Facet) (host : Mock.Host) (log : RunLog) : Prop :=
  ∀ m ∈ log.entries.filterMap LogEntry.made?, m.Fits ∧ facet.SparedBy host m

/-- The changes that the last log on disk records spare what a host held, and what lasts is
there still. -/
def SparedOnDisk (facet : Facet) (host : Mock.Host) (s : Stage) : Prop :=
  (∀ log, s.saved.head? = some log → SparedIn facet host log) ∧
    (facet.Lasts host → facet.of s.host = facet.of host)

/-- Between two steps of a run. -/
structure Sparing (facet : Facet) (host : Mock.Host) (log : RunLog) (made : List Made) (s : Stage) :
    Prop where
  saved : s.saved.head? = some log
  recorded : SparedIn facet host log
  made : ∀ m ∈ made, m.Fits ∧ facet.SparedBy host m
  lasts : facet.Lasts host → facet.of s.host = facet.of host

/-- The facet is as it was, or no step that is still to come is about it. -/
def Fresh (facet : Facet) (host : Mock.Host) (rest : List Step) (s : Stage) : Prop :=
  facet.of s.host = facet.of host ∨ ∀ step ∈ rest, step.action.site.same facet.site = false

/-- Nothing changes the facet, or one step at most is about it. -/
def Once (w : Setting Effect.interface Stage) (facet : Facet) (steps : List Step) : Prop :=
  (∀ s e x t, w s e x t → facet.of t.host = facet.of s.host) ∨
    steps.Pairwise fun a b => a.action.site.same facet.site = true →
      b.action.site.same facet.site = false

namespace Sparing

theorem onDisk (h : Sparing facet host log made s) : SparedOnDisk facet host s := by
  refine ⟨fun log' hlog' => ?_, h.lasts⟩
  obtain rfl : log = log' := Option.some.inj (h.saved.symm.trans hlog')
  exact h.recorded

/-- Nothing is put on disk, and what lasts is there still. -/
theorem moved (h : Sparing facet host log made s) (hsaved : t.saved = s.saved)
    (hlasts : facet.Lasts host → facet.of t.host = facet.of host) : Sparing facet host log made t :=
  ⟨hsaved ▸ h.saved, h.recorded, h.made, hlasts⟩

theorem tail (h : Sparing facet host log (m :: made) s) : Sparing facet host log made s :=
  { h with made := fun m' hm' => h.made m' (List.mem_cons_of_mem _ hm') }

theorem concat (h : Sparing facet host log made s) (hm : m.Fits ∧ facet.SparedBy host m) :
    Sparing facet host log (made ++ [m]) s where
  saved := h.saved
  recorded := h.recorded
  made := fun _ hm' => (List.mem_append.1 hm').elim (h.made _) fun hm' => List.mem_singleton.1 hm' ▸ hm
  lasts := h.lasts

/-- **A log is put on disk** that records nothing but what spares the facet. -/
theorem saving (h : Sparing facet host log made s) (hw : Stage.Lawful w)
    (hrecorded : SparedIn facet host log') {post : Stage → Prop}
    (hpost : Sparing facet host log' made (s.save log') → post (s.save log')) :
    Saving w (SparedOnDisk facet host) (fun _ _ => True) post log' s := by
  have hnext : Sparing facet host log' made (s.save log') := ⟨rfl, hrecorded, h.made, h.lasts⟩
  exact hw.saving h.onDisk ⟨hnext.onDisk, hpost hnext⟩

end Sparing

theorem SparedIn.push {e : LogEntry} (h : SparedIn facet host log)
    (he : ∀ m, e.made? = some m → m.Fits ∧ facet.SparedBy host m) : SparedIn facet host (log.push e) := by
  intro m hm
  rw [RunLog.push, List.filterMap_append, List.mem_append] at hm
  rcases hm with hm | hm
  · exact h m hm
  · obtain ⟨e', he', hm⟩ := List.mem_filterMap.1 hm
    rw [List.mem_singleton.1 he'] at hm
    exact he m hm

/-- **Undoing what was made**, whatever fails. -/
theorem ensures_unwinding_spared (hw : Stage.Lawful w) (hfind : ∀ target, Stage.Succeeds w (.find target))
    (h : Sparing facet host log todo s) :
    (o.unwindAll log todo).run.Ensures w (SparedOnDisk facet host)
      (onResult (fun r s => Sparing facet host r.1 [] s) fun _ _ => True) s := by
  let inv (todo : List Made) (log : RunLog) (_ : Bool) (s : Stage) : Prop := Sparing facet host log todo s
  have hstart : inv todo log true s := h
  refine ensures_unwindAll hw.quiet (fun _ _ _ _ h => h.onDisk) ?_ hstart
  intro m rest log clean s h
  obtain ⟨hfits, hspared⟩ := h.made m List.mem_cons_self
  -- what lasts is there, and stays
  have hundo : (o.undo m).Ensures w
      (fun t => t.saved = s.saved ∧ (facet.Lasts host → facet.of t.host = facet.of host))
      (fun r _ => r = .rolledBack ∨ ∃ f, r = .rollbackFailed f) s := by
    by_cases hlasts : facet.Lasts host
    · have hsame := h.lasts hlasts
      refine ((ensures_undo_spared hw hfind (hspared.congr hsame) hfits).and
        (Ledger.ensures_undo_any hw m s)).mono (fun _ _ _ _ _ hx => hx) ?_ fun _ _ _ hr => hr.2
      exact fun t ht => ⟨ht.2, fun _ => (ht.1.2 (hlasts.congr hsame)).trans hsame⟩
    · exact (Ledger.ensures_undo_any hw m s).mono (fun _ _ _ _ _ hx => hx)
        (fun t ht => ⟨ht, fun hl => absurd hl hlasts⟩) fun _ _ _ hr => hr
  refine hundo.mono (fun _ _ _ _ _ hx => hx) (fun t ht => (h.moved ht.1 ht.2).onDisk) ?_
  intro r t ht hr now
  refine (h.tail.moved ht.1 ht.2).saving hw (h.recorded.push fun m' hm' => ?_) id
  obtain rfl | ⟨f, rfl⟩ := hr <;> cases hm'

/-- Whether a step changes the facet, it stays fresh. -/
theorem ensures_apply_fresh (hw : Stage.Lawful w) (policy : Retry) {step : Step}
    (honce : Once w facet (step :: rest)) (hfresh : Fresh facet host (step :: rest) s) :
    (step.action.apply policy).Ensures w (fun _ => True) (fun _ t => Fresh facet host rest t) s := by
  have hstays : ∀ t : Stage, facet.of t.host = facet.of s.host → Fresh facet host rest t := fun t ht =>
    hfresh.imp ht.trans fun hrest a ha => hrest a (List.mem_cons_of_mem _ ha)
  by_cases habout : step.action.site.same facet.site = true
  · obtain hnever | hpairwise := honce
    · have hall : (step.action.apply policy).Ensures w (fun t => facet.of t.host = facet.of s.host)
          (fun _ _ => True) s :=
        (only_any _).ensures (fun t e x t' _ ht hx => (hnever t e x t' hx).trans ht) rfl
      exact hall.mono (fun _ _ _ _ _ hx => hx) (fun _ _ => trivial) fun _ t ht _ => hstays t ht
    · exact ((returns_any _).ensures s).imp fun _ _ _ _ =>
        .inr fun a ha => (List.pairwise_cons.1 hpairwise).1 a ha habout
  · exact (ensures_apart hw (step.action.only_apply policy) (by simpa using habout) s).mono
      (fun _ _ _ _ _ hx => hx) (fun _ _ => trivial) fun _ t ht _ => hstays t ht.2

theorem Once.tail {step : Step} (h : Once w facet (step :: rest)) : Once w facet rest :=
  h.imp_right fun hpairwise => (List.pairwise_cons.1 hpairwise).2

/-- **Applying a step** records a change that spares the facet. -/
theorem ensures_applyStep_spared (hw : Stage.Lawful w)
    (hfind : ∀ target, Stage.Succeeds w (.find target)) {step : Step}
    (h : Sparing facet host log made s) (hfresh : Fresh facet host (step :: rest) s)
    (honce : Once w facet (step :: rest)) :
    (o.applyStep log step).run.Ensures w (SparedOnDisk facet host)
      (onResult (fun r t =>
        match r with
        | (log, .ok change) =>
          Sparing facet host log (made ++ [⟨step.id, some step.action, change⟩]) t ∧
            Fresh facet host rest t
        | (log, .error _) => Sparing facet host log made t) fun _ _ => True) s := by
  refine ensures_applyStep hw.quiet h.onDisk fun since => ?_
  have hrecorded : SparedIn facet host (marking log step since) := h.recorded
  refine h.saving hw hrecorded fun _ => ?_
  let marked := s.save (marking log step since)
  have hsparing : Sparing facet host (marking log step since) made marked :=
    ⟨rfl, hrecorded, h.made, h.lasts⟩
  have hstart : facet.of marked.host = facet.of host ∨ step.action.site.same facet.site = false :=
    hfresh.imp_right fun hrest => hrest step List.mem_cons_self
  have hmarked : Fresh facet host (step :: rest) marked := hfresh
  have happly := ((ensures_apply_spared hw hfind o.retry step.id step.action hstart).and
    (ensures_apply_fresh hw o.retry honce hmarked)).and
    ((step.action.returns_fits o.retry).ensures marked)
  -- what lasts is there while the step is applied
  have hduring : ∀ t : Stage, t.saved = marked.saved →
      (facet.Lasts s.host → facet.of t.host = facet.of s.host) →
      Sparing facet host (marking log step since) made t := fun t hsaved hlasts =>
    hsparing.moved hsaved fun hl => (hlasts (hl.congr (h.lasts hl))).trans (h.lasts hl)
  refine happly.mono (fun _ _ _ _ _ hx => hx) (fun t ht => (hduring t ht.1.1.1 ht.1.1.2).onDisk) ?_
  rintro (e | change) t ⟨⟨⟨hsaved, hlasts⟩, -⟩, -⟩ ⟨⟨hspared, hfresh⟩, hfits⟩ now
  · have hfailed : SparedIn facet host (settled (marking log step since) step now (.error e)) := h.recorded
    exact (hduring t hsaved hlasts).saving hw hfailed id
  · have hm : Made.Fits ⟨step.id, some step.action, change⟩ ∧
        facet.SparedBy host ⟨step.id, some step.action, change⟩ :=
      ⟨⟨_, rfl, hfits change rfl⟩, hspared change rfl⟩
    refine ((hduring t hsaved hlasts).concat hm).saving hw (hrecorded.push fun m hm' => ?_) fun hnext =>
      ⟨hnext, hfresh⟩
    obtain rfl := Option.some.inj hm'
    exact hm

/-- **The forward half.** -/
theorem ensures_forward_spared (hw : Stage.Lawful w) (hfind : ∀ target, Stage.Succeeds w (.find target))
    {skip : List String} (h : Sparing facet host log made s) (hfresh : Fresh facet host rest s)
    (honce : Once w facet rest) :
    (o.forward skip log made rest).run.Ensures w (SparedOnDisk facet host)
      (onResult (fun p t => Sparing facet host p.log p.made t) fun _ _ => True) s := by
  let inv (rest : List Step) (log : RunLog) (made : List Made) (t : Stage) : Prop :=
    Sparing facet host log made t ∧ Fresh facet host rest t ∧ Once w facet rest
  have hstart : inv rest log made s := ⟨h, hfresh, honce⟩
  refine ensures_forward hw.quiet (fun _ _ _ _ h => h.1.onDisk) (fun _ _ _ h => h.1)
    (fun _ _ _ _ _ h => h.1) ?_ ?_ rest log made s hstart
  · rintro step rest log made s - ⟨h, hfresh, honce⟩ now
    refine h.saving hw (h.recorded.push fun m hm => by cases hm) fun hnext => ⟨hnext, ?_, honce.tail⟩
    exact hfresh.imp_right fun hrest a ha => hrest a (List.mem_cons_of_mem _ ha)
  · rintro step rest log made s - ⟨h, hfresh, honce⟩
    refine (ensures_applyStep_spared hw hfind h hfresh honce).imp ?_
    rintro (e | ⟨log', e | change⟩) t - hr
    · exact hr
    · exact hr
    · exact ⟨hr.1, hr.2, honce.tail⟩

/-- What follows the forward half. -/
theorem ensures_finishing_spared (hw : Stage.Lawful w)
    (hfind : ∀ target, Stage.Succeeds w (.find target)) {p : Progress}
    (h : Sparing facet host p.log p.made s) :
    Finishing w (SparedOnDisk facet host) (fun _ _ => True) o (fun _ _ => True) p s := by
  have htodo : Sparing facet host p.log p.toUndo s := by
    refine { h with made := fun m hm => h.made m ?_ }
    unfold Progress.toUndo at hm
    split at hm
    · cases hm
    all_goals exact List.mem_reverse.1 hm
  have hclose : ∀ {log t}, Sparing facet host log [] t → ∀ status now,
      Saving w (SparedOnDisk facet host) (fun _ _ => True) (fun _ => True) (closing log status now) t := by
    intro log t h status now
    have hclosing : SparedIn facet host (closing log status now) := h.recorded
    exact h.saving hw hclosing fun _ => trivial
  refine (ensures_unwinding_spared hw hfind htodo).imp ?_
  obtain ⟨-, -, halt⟩ := p
  rintro (e | ⟨log, clean⟩) t - hr
  · exact hr
  · have hr : Sparing facet host log [] t := hr
    cases halt with
    | complete => exact hclose hr _
    | cancelled => exact hclose hr _
    | failed step f =>
      exact fun now => hr.saving hw (hr.recorded.push fun m hm => by cases hm) fun hnext => hclose hnext _

/-- **At every point of a run, the changes that are recorded on disk spare what was there before the
run**, whatever fails. -/
theorem ensures_spared (hw : Stage.Lawful w) (hfind : ∀ target, Stage.Succeeds w (.find target))
    {registry : Registry} {skip : List String}
    (honce : ∀ plan, registry.plan = .ok plan → Once w facet plan.steps) :
    (o.run registry skip).run.Ensures w (SparedOnDisk facet host) (fun _ _ => True) ⟨host, []⟩ := by
  have hnone : SparedOnDisk facet host ⟨host, []⟩ := ⟨fun _ hlog => (by cases hlog), fun _ => rfl⟩
  have hrun : (o.run registry skip).run.Ensures w (SparedOnDisk facet host)
      (onResult (fun _ _ => True) fun _ _ => True) ⟨host, []⟩ := by
    refine ensures_run hw.quiet hnone (fun _ => trivial) fun plan hplan => ?_
    refine ensures_carryOut hw.quiet hnone (fun _ => trivial) fun id started => ?_
    have hempty : ∀ {log : RunLog}, log.entries = [] → SparedIn facet host log := by
      intro log hlog m hm
      rw [hlog] at hm
      cases hm
    have hcreated : Sparing facet host (RunLog.start id started plan.ids) []
        (Stage.save ⟨host, []⟩ (RunLog.start id started plan.ids)) :=
      ⟨rfl, hempty rfl, fun _ hm => (by cases hm), fun _ => rfl⟩
    refine hw.saving hnone ⟨hcreated.onDisk, hcreated.saving hw (hempty rfl) fun hrunning => ?_⟩
    refine (ensures_forward_spared hw hfind hrunning (.inl rfl)
      (honce plan (plan_of_checkedPlan hplan))).imp ?_
    rintro (e | p) t - hp
    · exact hp
    · exact ensures_finishing_spared hw hfind hp
  exact hrun.imp fun _ _ _ _ => trivial

end Orchestrator

end Provision
