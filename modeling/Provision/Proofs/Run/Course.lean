import Provision.Proofs.Mock.Trial

/-!
# The course of a run on a host on which no call is told to fail

Steps that are about different sites do not get in each other's way, so what becomes of each
step can be told from the host as it was before the run: each is applied as it would be alone,
up to the first one that fails, and then all that was applied is undone.

* `Stands`: a host on which some steps have been applied; `Stands.apply` and `Stands.undo` are
  the steps of the two halves of a run.
* `fate`: what becomes of a step that a run comes to.
* `Course`: the two ways in which the run ends.
* `ensures_course`: **the run takes this course.**
-/

namespace Provision

open Script

/-- What an entry tells: the step and the result. -/
def LogEntry.told (e : LogEntry) : String × StepResult := (e.step, e.result)

namespace Orchestrator

open Mock

variable {o : Orchestrator} {registry : Registry} {skip : List String} {links : Path → Option Path}
  {h₀ h : Host} {steps done kept : List Step} {step : Step} {change : Change} {e : HostError}

/-- Applying a step to a host makes a change. -/
def Applies (links : Path → Option Path) (h₀ : Host) (step : Step) : Prop :=
  ∃ change, (step.action.trial links h₀).1 = .ok change

/-- A host that was as `h₀` is, and on which some steps have been applied. -/
structure Stands (links : Path → Option Path) (h₀ : Host) (steps : List Step) (h : Host) : Prop where
  untroubled : h.Untroubled
  applied : ∀ step ∈ steps,
    h.holds step.action.site = (step.action.trial links h₀).2.holds step.action.site
  elsewhere : ∀ site : Site, (∀ step ∈ steps, site.same step.action.site = false) →
    h.holds site = h₀.holds site

theorem Stands.start (hh : h₀.Untroubled) : Stands links h₀ [] h₀ := ⟨hh, by simp, fun _ _ => rfl⟩

/-- What a step comes to on a host on which steps at other sites have been applied. -/
theorem Stands.trial (hs : Stands links h₀ steps h) (hh : h₀.Untroubled)
    (hapart : ∀ s ∈ steps, Registry.Apart s step) :
    (step.action.trial links h).1 = (step.action.trial links h₀).1 ∧
      (step.action.trial links h).2.holds step.action.site =
        (step.action.trial links h₀).2.holds step.action.site :=
  Host.run_local step.action.only_attempt hh hs.untroubled
    (hs.elsewhere _ fun s hs => (hapart s hs).symm)

/-- **A step that is applied makes the change it would make alone.** -/
theorem Stands.apply (hs : Stands links h₀ steps h) (hh : h₀.Untroubled)
    (hapart : ∀ s ∈ steps, Registry.Apart s step) :
    Stands links h₀ (steps ++ [step]) (step.action.trial links h).2 := by
  refine ⟨hs.untroubled.run _, fun s hstep => ?_, fun site hsite => ?_⟩
  · rcases List.mem_append.1 hstep with hstep | hstep
    · exact (Host.holds_run step.action.only_attempt h (hapart s hstep)).trans (hs.applied s hstep)
    · obtain rfl := List.mem_singleton.1 hstep
      exact (hs.trial hh hapart).2
  · have hother : site.same step.action.site = false := hsite step (by simp)
    refine (Host.holds_run step.action.only_attempt h hother).trans (hs.elsewhere site fun s hstep => ?_)
    exact hsite s (List.mem_append_left _ hstep)

/-- A step that fails leaves the host as it was. -/
theorem Stands.fail (hs : Stands links h₀ steps h) (hfailed : (step.action.trial links h).1 = .error e) :
    Stands links h₀ steps (step.action.trial links h).2 := by
  have hsame : ∀ site, (step.action.trial links h).2.holds site = h.holds site := by
    intro site
    cases hsite : site.same step.action.site with
    | false => exact Host.holds_run step.action.only_attempt h hsite
    | true =>
      rw [Host.holds_congr _ hsite, Host.holds_congr h hsite]
      exact StepAction.holds_of_failed hs.untroubled hfailed
  refine ⟨hs.untroubled.run _, fun s hstep => ?_, fun site hsite => ?_⟩
  · exact (hsame _).trans (hs.applied s hstep)
  · exact (hsame site).trans (hs.elsewhere site hsite)

/-- **A step that was applied is undone, whatever was applied at other sites.** -/
theorem Stands.undo (hs : Stands links h₀ (step :: steps) h) (hh : h₀.Untroubled) (policy : Retry)
    (hapart : ∀ s ∈ steps, Registry.Apart step s)
    (happlied : (step.action.trial links h₀).1 = .ok change) :
    ((step.action.rollback policy change).run (Host.reply links) h).1 = .ok () ∧
      Stands links h₀ steps ((step.action.rollback policy change).run (Host.reply links) h).2 := by
  have honly := step.action.only_rollback policy change
  obtain ⟨hok, hback⟩ := StepAction.run_rollback policy hh hs.untroubled happlied
    (hs.applied step List.mem_cons_self)
  refine ⟨hok, hs.untroubled.run _, fun s hstep => ?_, fun site hsite => ?_⟩
  · refine (Host.holds_run honly h (hapart s hstep).symm).trans ?_
    exact hs.applied s (List.mem_cons_of_mem _ hstep)
  · cases hsame : site.same step.action.site with
    | false =>
      refine (Host.holds_run honly h hsame).trans (hs.elsewhere site fun s hstep => ?_)
      rcases List.mem_cons.1 hstep with rfl | hstep
      · exact hsame
      · exact hsite s hstep
    | true =>
      rw [Host.holds_congr _ hsame, Host.holds_congr h₀ hsame]
      exact hback

/-! ### What is told of the steps -/

/-- What becomes of a step that a run comes to. -/
def fate (links : Path → Option Path) (skip : List String) (h₀ : Host) (step : Step) : StepResult :=
  if step.id ∈ skip then .skipped
  else
    match (step.action.trial links h₀).1 with
    | .ok change => .applied change
    | .error e => .failed e.toFailure

/-- What is told of a step that a run comes to. -/
def foreseen (links : Path → Option Path) (skip : List String) (h₀ : Host) (step : Step) :
    String × StepResult := (step.id, fate links skip h₀ step)

theorem fate_skipped (h : step.id ∈ skip) : fate links skip h₀ step = .skipped := if_pos h

theorem fate_applied (hskip : step.id ∉ skip) (h : (step.action.trial links h₀).1 = .ok change) :
    fate links skip h₀ step = .applied change := by
  unfold fate
  rw [if_neg hskip, h]

theorem fate_failed (hskip : step.id ∉ skip) (h : (step.action.trial links h₀).1 = .error e) :
    fate links skip h₀ step = .failed e.toFailure := by
  unfold fate
  rw [if_neg hskip, h]

/-- The steps that are not to be skipped. -/
def taken (skip : List String) (steps : List Step) : List Step := steps.filter (·.id ∉ skip)

theorem mem_taken : step ∈ taken skip steps ↔ step ∈ steps ∧ step.id ∉ skip := by simp [taken]

theorem taken_skipped (hskip : step.id ∈ skip) : taken skip (done ++ [step]) = taken skip done := by
  simp [taken, hskip]

theorem taken_concat (hskip : step.id ∉ skip) :
    taken skip (done ++ [step]) = taken skip done ++ [step] := by
  simp [taken, hskip]

/-- The change that applying a step makes. -/
def madeOf (links : Path → Option Path) (h₀ : Host) (step : Step) : Made :=
  ⟨step.id, some step.action, (step.action.trial links h₀).1.toOption.getD (.mount false)⟩

theorem madeOf_eq (h : (step.action.trial links h₀).1 = .ok change) :
    madeOf links h₀ step = ⟨step.id, some step.action, change⟩ := by
  unfold madeOf
  rw [h]
  rfl

/-- What is told of a step that is undone. -/
def undoneOf (step : Step) : String × StepResult := (step.id, .rolledBack)

/-! ### The two halves of a run -/

/-- The steps up to some point have been taken, each as it would have been alone. -/
structure Underwent (links : Path → Option Path) (skip : List String) (h₀ : Host) (done : List Step)
    (log : RunLog) (made : List Made) (s : Stage) : Prop where
  applies : ∀ step ∈ taken skip done, Applies links h₀ step
  told : log.entries.map LogEntry.told = done.map (foreseen links skip h₀)
  made_eq : made = (taken skip done).map (madeOf links h₀)
  stands : Stands links h₀ (taken skip done) s.host
  saved : s.saved.head? = some log

/-- A step that is skipped is recorded, and nothing else. -/
theorem Underwent.skipped {log : RunLog} {made : List Made} {s : Stage}
    (hu : Underwent links skip h₀ done log made s) (hskip : step.id ∈ skip) (now : String) :
    Underwent links skip h₀ (done ++ [step]) (log.push ⟨step.id, .skipped, none, now⟩) made
      (s.save (log.push ⟨step.id, .skipped, none, now⟩)) := by
  have htaken : taken skip (done ++ [step]) = taken skip done := taken_skipped hskip
  refine ⟨?_, ?_, ?_, ?_, rfl⟩
  · rw [htaken]
    exact hu.applies
  · simp [RunLog.push, hu.told, LogEntry.told, foreseen, fate_skipped hskip]
  · rw [htaken]
    exact hu.made_eq
  · rw [htaken]
    exact hu.stands

/-- A step that is applied is recorded with the change it makes. -/
theorem Underwent.applied {log : RunLog} {made : List Made} {s t : Stage}
    (hu : Underwent links skip h₀ done log made s) (hh : h₀.Untroubled) (hskip : step.id ∉ skip)
    (hapart : ∀ s ∈ taken skip done, Registry.Apart s step)
    (happlied : (step.action.trial links h₀).1 = .ok change)
    (ht : t.host = (step.action.trial links s.host).2) (since now : String) :
    Underwent links skip h₀ (done ++ [step]) (settled (marking log step since) step now (.ok change))
      (made ++ [⟨step.id, some step.action, change⟩])
      (t.save (settled (marking log step since) step now (.ok change))) := by
  have htaken : taken skip (done ++ [step]) = taken skip done ++ [step] := taken_concat hskip
  refine ⟨?_, ?_, ?_, ?_, rfl⟩
  · rw [htaken]
    intro s hs
    rcases List.mem_append.1 hs with hs | hs
    · exact hu.applies s hs
    · exact List.mem_singleton.1 hs ▸ ⟨change, happlied⟩
  · simp [settled, marking, RunLog.push, hu.told, LogEntry.told, foreseen, fate_applied hskip happlied]
  · rw [htaken, List.map_append, ← hu.made_eq, List.map_singleton, madeOf_eq happlied]
  · have hhost : (t.save (settled (marking log step since) step now (.ok change))).host =
        (step.action.trial links s.host).2 := ht
    rw [htaken, hhost]
    exact hu.stands.apply hh hapart

/-- A step that fails leaves things as they were. -/
theorem Underwent.failed {log : RunLog} {made : List Made} {s t : Stage}
    (hu : Underwent links skip h₀ done log made s)
    (hfailed : (step.action.trial links s.host).1 = .error e)
    (ht : t.host = (step.action.trial links s.host).2) (since now : String) :
    Underwent links skip h₀ done (settled (marking log step since) step now (.error e)) made
      (t.save (settled (marking log step since) step now (.error e))) := by
  refine ⟨hu.applies, hu.told, hu.made_eq, ?_, rfl⟩
  have hhost : (t.save (settled (marking log step since) step now (.error e))).host =
      (step.action.trial links s.host).2 := ht
  rw [hhost]
  exact hu.stands.fail hfailed

/-- Where the forward half ends: it came through all steps, or to one that fails. -/
def Arrived (links : Path → Option Path) (skip : List String) (h₀ : Host) (steps : List Step)
    (p : Progress) (s : Stage) : Prop :=
  match p.halt with
  | .complete => Underwent links skip h₀ steps p.log p.made s
  | .cancelled => False
  | .failed step f => ∃ done later e, steps = done ++ step :: later ∧ step.id ∉ skip ∧
    (step.action.trial links h₀).1 = .error e ∧ f = e.toFailure ∧
    Underwent links skip h₀ done p.log p.made s

/-- The steps up to some point have been taken, and others are left. -/
def Ongoing (links : Path → Option Path) (skip : List String) (h₀ : Host) (steps rest : List Step)
    (log : RunLog) (made : List Made) (s : Stage) : Prop :=
  ∃ done, steps = done ++ rest ∧ Underwent links skip h₀ done log made s

/-- **The forward half takes one step after the other as it would be taken alone.** -/
theorem ensures_arrived (hh : h₀.Untroubled) (hapart : steps.Pairwise Registry.Apart) {log : RunLog}
    {s : Stage} (hstart : Underwent links skip h₀ [] log [] s) :
    (o.forward skip log [] steps).run.Ensures (Stage.undisturbed links) (fun _ => True)
      (onResult (Arrived links skip h₀ steps) fun _ _ => False) s := by
  let inv (rest : List Step) (log : RunLog) (made : List Made) (s : Stage) : Prop :=
    Ongoing links skip h₀ steps rest log made s
  have hinv : inv steps log [] s := ⟨[], rfl, hstart⟩
  have hquiet : Quiet (Stage.undisturbed links) := Stage.lawful_undisturbed.quiet
  refine ensures_forward_stopped hquiet (fun _ _ _ _ _ => trivial) ?_ ?_ ?_ ?_ steps log [] s hinv
  · rintro log made s ⟨done, hdone, hu⟩
    rw [List.append_nil] at hdone
    exact hdone ▸ hu
  · rintro step rest log made s ⟨hstop, -⟩ -
    cases hstop
  · rintro step rest log made s hskip ⟨done, hdone, hu⟩ now
    exact Stage.saving_undisturbed ⟨trivial, done ++ [step], by simp [hdone], hu.skipped hskip now⟩
  · rintro step rest log made s hskip ⟨done, hdone, hu⟩
    have hstep : ∀ s ∈ taken skip done, Registry.Apart s step := by
      rw [hdone] at hapart
      exact fun s hs => (List.pairwise_append.1 hapart).2.2 s (mem_taken.1 hs).1 step (by simp)
    have hsame := (hu.stands.trial hh hstep).1
    have hrun : (step.action.apply o.retry).run (Host.reply links) s.host =
        step.action.trial links s.host := StepAction.run_apply o.retry step.action hu.stands.untroubled
    refine ensures_applyStep hquiet trivial fun since => Stage.saving_undisturbed ⟨trivial, ?_⟩
    refine (Stage.ensures_of_run links (step.action.only_apply o.retry) _).imp ?_
    rintro r t - ⟨hr, rfl⟩ now
    have hr : r = (step.action.trial links s.host).1 := hr.trans (congrArg Prod.fst hrun)
    refine Stage.saving_undisturbed ⟨trivial, ?_⟩
    cases r with
    | ok change =>
      refine ⟨done ++ [step], by simp [hdone], ?_⟩
      exact hu.applied hh hskip hstep (hsame.symm.trans hr.symm) (congrArg Prod.snd hrun) since now
    | error e =>
      refine ⟨done, rest, e, hdone, hskip, hsame.symm.trans hr.symm, rfl, ?_⟩
      exact hu.failed hr.symm (congrArg Prod.snd hrun) since now

/-- Some changes have been undone, and those of the steps `kept` are left; together they are
told as `told`. -/
structure Rewinding (links : Path → Option Path) (h₀ : Host) (told : List (String × StepResult))
    (kept : List Step) (log : RunLog) (clean : Bool) (s : Stage) : Prop where
  clean : clean = true
  applies : ∀ step ∈ kept, Applies links h₀ step
  apart : kept.Pairwise Registry.Apart
  told : log.entries.map LogEntry.told ++ kept.map undoneOf = told
  stands : Stands links h₀ kept s.host
  saved : s.saved.head? = some log

/-- The steps that have been taken are those to be undone, the last one first. -/
theorem Underwent.rewinding {log : RunLog} {made : List Made} {s : Stage}
    (hu : Underwent links skip h₀ done log made s) (hapart : done.Pairwise Registry.Apart) :
    Rewinding links h₀ (log.entries.map LogEntry.told ++ (taken skip done).reverse.map undoneOf)
      (taken skip done).reverse log true s where
  clean := rfl
  applies step hstep := hu.applies step (List.mem_reverse.1 hstep)
  apart := List.pairwise_reverse.2 <|
    (hapart.sublist List.filter_sublist).imp fun {_ _} hab => hab.symm
  told := rfl
  stands :=
    { untroubled := hu.stands.untroubled
      applied := fun step hstep => hu.stands.applied step (List.mem_reverse.1 hstep)
      elsewhere := fun site hsite =>
        hu.stands.elsewhere site fun step hstep => hsite step (List.mem_reverse.2 hstep) }
  saved := hu.saved

/-- **Unwinding undoes one change after the other**, and all goes well. -/
theorem ensures_rewinding (hh : h₀.Untroubled) {log : RunLog} {s : Stage}
    {told : List (String × StepResult)} (h : Rewinding links h₀ told kept log true s) :
    (o.unwindAll log (kept.map (madeOf links h₀))).run.Ensures (Stage.undisturbed links) (fun _ => True)
      (onResult (fun r t => Rewinding links h₀ told [] r.1 r.2 t) fun _ _ => False) s := by
  let inv (todo : List Made) (log : RunLog) (clean : Bool) (s : Stage) : Prop :=
    ∃ kept, todo = kept.map (madeOf links h₀) ∧ Rewinding links h₀ told kept log clean s
  have hquiet : Quiet (Stage.undisturbed links) := Stage.lawful_undisturbed.quiet
  have hinv : inv (kept.map (madeOf links h₀)) log true s := ⟨kept, rfl, h⟩
  have hall : (o.unwindAll log (kept.map (madeOf links h₀))).run.Ensures (Stage.undisturbed links)
      (fun _ => True) (onResult (fun r t => inv [] r.1 r.2 t) fun _ _ => False) s := by
    refine ensures_unwindAll hquiet (fun _ _ _ _ _ => trivial) ?_ hinv
    rintro m rest log clean s ⟨kept, htodo, hr⟩
    obtain ⟨step, kept, rfl⟩ : ∃ step later, kept = step :: later := by
      cases kept with
      | nil => cases htodo
      | cons step later => exact ⟨step, later, rfl⟩
    obtain ⟨change, hchange⟩ := hr.applies step List.mem_cons_self
    rw [List.map_cons, madeOf_eq hchange] at htodo
    obtain ⟨rfl, rfl⟩ := List.cons.inj htodo
    obtain ⟨hapart, hkept⟩ := List.pairwise_cons.1 hr.apart
    obtain ⟨hok, hstands⟩ := hr.stands.undo hh o.retry hapart hchange
    -- undoing the change of a step comes to what rolling back its action does
    refine ensures_bind.2 ((Stage.ensures_of_run links (step.action.only_rollback o.retry change) s).imp ?_)
    rintro r t - ⟨hresult, rfl⟩
    rw [hok] at hresult
    subst hresult
    refine ⟨trivial, fun now => Stage.saving_undisturbed ⟨trivial, kept, rfl, ?_⟩⟩
    refine ⟨by rw [hr.clean]; rfl, fun s hs => hr.applies s (List.mem_cons_of_mem _ hs), hkept, ?_,
      hstands, rfl⟩
    rw [← hr.told]
    simp [RunLog.push, LogEntry.told, undoneOf]
  refine hall.imp ?_
  rintro (e | r) t - hr
  · exact hr
  · obtain ⟨kept, hnil, hr⟩ := hr
    rw [List.map_eq_nil_iff.1 hnil.symm] at hr
    exact hr

/-! ### The whole -/

/-- The two ways in which a run of some steps ends: what it tells of the steps, its status, and
the host afterwards. -/
inductive Course (links : Path → Option Path) (skip : List String) (h₀ : Host) (steps : List Step) :
    List (String × StepResult) → RunStatus → Host → Prop
  | completed {h : Host} : (∀ step ∈ taken skip steps, Applies links h₀ step) →
      Stands links h₀ (taken skip steps) h →
      Course links skip h₀ steps (steps.map (foreseen links skip h₀)) .completed h
  | failed {done later : List Step} {step : Step} {e : HostError} {h : Host} :
      steps = done ++ step :: later → (∀ s ∈ taken skip done, Applies links h₀ s) → step.id ∉ skip →
      (step.action.trial links h₀).1 = .error e → Stands links h₀ [] h →
      Course links skip h₀ steps
        (done.map (foreseen links skip h₀) ++ (taken skip done).reverse.map undoneOf ++
          [foreseen links skip h₀ step]) (.aborted .failure) h

/-- What the log on disk and the report say of a run that took its course. -/
def Ran (links : Path → Option Path) (skip : List String) (h₀ : Host) (steps : List Step)
    (report : RunReport) (s : Stage) : Prop :=
  ∃ log, s.saved.head? = some log ∧ report = .ofLog log true ∧
    Course links skip h₀ steps (log.entries.map LogEntry.told) log.status s.host

/-- What follows the forward half: what was made is undone if a step failed, and the end is
recorded. -/
theorem ensures_ran (hh : h₀.Untroubled) (hapart : steps.Pairwise Registry.Apart) {p : Progress}
    {s : Stage} (h : Arrived links skip h₀ steps p s) :
    Finishing (Stage.undisturbed links) (fun _ => True) (fun _ _ => False) o
      (Ran links skip h₀ steps) p s := by
  obtain ⟨log, made, halt⟩ := p
  cases halt with
  | complete =>
    obtain ⟨happlies, htold, hmade, hstands, hsaved⟩ := h
    refine ensures_pureE.2 ⟨trivial, fun now => Stage.saving_undisturbed ⟨trivial, ?_⟩⟩
    refine ⟨_, rfl, rfl, ?_⟩
    rw [show (closing log Halt.complete.status now).entries.map LogEntry.told = _ from htold]
    exact .completed happlies hstands
  | cancelled => exact h.elim
  | failed step f =>
    obtain ⟨done, later, e, hsteps, hskip, hfailed, rfl, hunderwent⟩ := h
    dsimp only at hunderwent
    have hdone : done.Pairwise Registry.Apart := by
      rw [hsteps] at hapart
      exact (List.pairwise_append.1 hapart).1
    have hundo : made.reverse = (taken skip done).reverse.map (madeOf links h₀) := by
      rw [hunderwent.made_eq, List.map_reverse]
    unfold Finishing Progress.toUndo
    dsimp only
    rw [hundo]
    refine (ensures_rewinding hh (hunderwent.rewinding hdone)).imp ?_
    rintro (e' | ⟨log', clean⟩) t - hr
    · exact hr
    · obtain ⟨rfl, -, -, htold', hstands', -⟩ := hr
      dsimp only at htold'
      refine fun since => Stage.saving_undisturbed ⟨trivial, fun now => ?_⟩
      refine Stage.saving_undisturbed ⟨trivial, _, rfl, rfl, ?_⟩
      have hlast : (step.id, StepResult.failed e.toFailure) = foreseen links skip h₀ step := by
        rw [foreseen, fate_failed hskip hfailed]
      have hentries : ((log'.push ⟨step.id, .failed e.toFailure, some step.action, since⟩).entries).map
          LogEntry.told = done.map (foreseen links skip h₀) ++ (taken skip done).reverse.map undoneOf ++
            [foreseen links skip h₀ step] := by
        rw [← hunderwent.told, ← htold', ← hlast]
        simp [RunLog.push, LogEntry.told]
      rw [show (closing (log'.push ⟨step.id, .failed e.toFailure, some step.action, since⟩)
        (Halt.failed step e.toFailure).status now).entries.map LogEntry.told = _ from hentries]
      exact .failed hsteps hunderwent.applies hskip hfailed hstands'

/-- **A run on a host on which no call is told to fail takes its course.** -/
theorem ensures_course (hb : registry.Built) (hu : registry.UnitsDiffer) {plan : RunPlan}
    (hplan : checkedPlan registry skip = .ok plan) {s : Stage} (hh : s.host.Untroubled) :
    (o.run registry skip).run.Ensures (Stage.undisturbed links) (fun _ => True)
      (onResult (Ran links skip s.host plan.steps) fun _ _ => False) s := by
  have hquiet : Quiet (Stage.undisturbed links) := Stage.lawful_undisturbed.quiet
  have hapart := hb.plan_apart hu (plan_of_checkedPlan hplan)
  have hcarry : (o.carryOut skip plan).run.Ensures (Stage.undisturbed links) (fun _ => True)
      (onResult (Ran links skip s.host plan.steps) fun _ _ => False) s := by
    refine ensures_carryOut_prepared hquiet trivial ?_ fun id started => ?_
    · rintro e ⟨hprepared, -⟩
      cases hprepared
    · refine Stage.saving_undisturbed ⟨trivial, Stage.saving_undisturbed ⟨trivial, ?_⟩⟩
      have hstart : Underwent links skip s.host [] (running id started plan.ids) []
          ((s.save (RunLog.start id started plan.ids)).save (running id started plan.ids)) :=
        ⟨by simp [taken], rfl, rfl, .start hh, rfl⟩
      refine (ensures_arrived hh hapart hstart).imp ?_
      rintro (e | p) t - hp
      · exact hp
      · exact ensures_ran hh hapart hp
  rw [run_of_checkedPlan hplan]
  refine ensures_locked_held hquiet trivial ?_ hcarry
  rintro x ⟨rfl, -⟩ hne
  exact absurd rfl hne

end Orchestrator

end Provision
