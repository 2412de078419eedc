import Provision.Proofs.Run.Course
import Provision.Proofs.Run.Dependencies

/-!
# The order in which steps are registered does not matter

Steps that do not depend on each other run in the order in which they were registered. Two
registries with the same steps may so have different plans, and runs of them may fail at
different steps, after others have been applied. Where no call is told to fail they come to the
same all the same: a run is completed if every step can be applied to the host as it was, and
else leaves the host as it was.

* `Course.verdict`: whether a run is completed shows on the host as it was before it.
* `Stands.agree`: hosts on which the same steps have been applied hold the same everywhere.
* `Alike`: what the ends of two runs have in common.
* `runs_alike`: **runs of registries with the same steps end alike.**
-/

namespace Provision.Orchestrator

open Script Mock

variable {o o' : Orchestrator} {r r' : Registry} {skip : List String} {links : Path → Option Path}
  {h₀ h h' : Host} {steps steps' : List Step} {told told' : List (String × StepResult)}
  {status status' : RunStatus}

/-- **Whether a run is completed shows on the host as it was before it**: it is if every step
that is taken can be applied there, and else nothing of it is left. -/
theorem Course.verdict (hcourse : Course links skip h₀ steps told status h) :
    (status = .completed ∧ (∀ step ∈ taken skip steps, Applies links h₀ step) ∧
      Stands links h₀ (taken skip steps) h) ∨
    (status = .aborted .failure ∧ (∃ step ∈ taken skip steps, ¬Applies links h₀ step) ∧
      Stands links h₀ [] h) := by
  cases hcourse with
  | completed happlies hstands => exact .inl ⟨rfl, happlies, hstands⟩
  | @failed done later step e _ hsteps _ hskip hfailed hstands =>
    refine .inr ⟨rfl, ⟨step, mem_taken.2 ⟨by simp [hsteps], hskip⟩, ?_⟩, hstands⟩
    rintro ⟨change, happlied⟩
    rw [hfailed] at happlied
    cases happlied

/-- **Hosts on which the same steps have been applied hold the same everywhere**, in whichever
order they were applied. -/
theorem Stands.agree (hs : Stands links h₀ steps h) (hs' : Stands links h₀ steps' h')
    (hsame : ∀ step, step ∈ steps ↔ step ∈ steps') (site : Site) : h.holds site = h'.holds site := by
  by_cases hsite : ∃ step ∈ steps, site.same step.action.site = true
  · obtain ⟨step, hstep, hsite⟩ := hsite
    have hstep' : step ∈ steps' := (hsame step).1 hstep
    rw [h.holds_congr hsite, h'.holds_congr hsite, hs.applied step hstep, hs'.applied step hstep']
  · have hother : ∀ step ∈ steps, site.same step.action.site = false := by simpa using hsite
    rw [hs.elsewhere site hother, hs'.elsewhere site fun step hstep => hother step ((hsame step).2 hstep)]

/-- Runs of the same steps in different orders have the same status, and the hosts hold the
same afterwards. -/
theorem Course.agree (hcourse : Course links skip h₀ steps told status h)
    (hcourse' : Course links skip h₀ steps' told' status' h') (hperm : steps.Perm steps') :
    status = status' ∧ (status = .completed ∨ status = .aborted .failure) ∧
      ∀ site, h.holds site = h'.holds site := by
  have hsame : ∀ step, step ∈ taken skip steps ↔ step ∈ taken skip steps' := fun step =>
    (hperm.filter _).mem_iff
  obtain ⟨rfl, happlies, hstands⟩ | ⟨rfl, ⟨step, hstep, hnot⟩, hstands⟩ := hcourse.verdict
  · obtain ⟨rfl, -, hstands'⟩ | ⟨rfl, ⟨step, hstep, hnot⟩, -⟩ := hcourse'.verdict
    · exact ⟨rfl, .inl rfl, hstands.agree hstands' hsame⟩
    · exact absurd (happlies step ((hsame step).2 hstep)) hnot
  · obtain ⟨rfl, happlies, -⟩ | ⟨rfl, -, hstands'⟩ := hcourse'.verdict
    · exact absurd (happlies step ((hsame step).1 hstep)) hnot
    · exact ⟨rfl, .inr rfl, hstands.agree hstands' fun _ => Iff.rfl⟩

/-- What the ends of two runs from one stage have in common. -/
inductive Alike (registry : Registry) (skip : List String) (s : Stage) :
    Except RunError RunReport → Stage → Except RunError RunReport → Stage → Prop
  /-- Both are refused, since a step that is to be skipped is not registered. -/
  | refused {id : String} : id ∈ skip → (∀ step ∈ registry.steps, step.id ≠ id) →
      Alike registry skip s (.error (.unknownStep id)) s (.error (.unknownStep id)) s
  /-- Both are completed, or both are aborted after a failure. The same is mounted everywhere,
  and every unit is enabled, and runs, on both hosts or on none. -/
  | ended {report report' : RunReport} {t t' : Stage} : report.status = report'.status →
      (report.status = .completed ∨ report.status = .aborted .failure) →
      (∀ target, Mount.stack target t.host.table.entries = Mount.stack target t'.host.table.entries) →
      (∀ unit, t.host.manager.unit? unit = t'.host.manager.unit? unit) →
      Alike registry skip s (.ok report) t (.ok report') t'

/-- **The order in which steps are registered does not matter**: runs of two registries with the
same steps, from a host on which no call is told to fail, come to an end, and end alike. -/
theorem runs_alike (hb : r.Built) (hb' : r'.Built) (hperm : r.steps.Perm r'.steps) (hk : r.Known)
    (ha : r.Acyclic) (hu : r.UnitsDiffer) {s : Stage} (hh : s.host.Untroubled) :
    (∃ result t, (o.run r skip).run.Reaches (Stage.undisturbed links) s (.done result) t) ∧
    (∃ result t, (o'.run r' skip).run.Reaches (Stage.undisturbed links) s (.done result) t) ∧
    ∀ result t result' t',
      (o.run r skip).run.Reaches (Stage.undisturbed links) s (.done result) t →
      (o'.run r' skip).run.Reaches (Stage.undisturbed links) s (.done result') t' →
      Alike r skip s result t result' t' := by
  have hends : ∀ p : Effects (Except RunError RunReport),
      ∃ result t, p.Reaches (Stage.undisturbed links) s (.done result) t :=
    fun p => exists_reaches_done Stage.serial_undisturbed p s
  refine ⟨hends _, hends _, fun result t result' t' hrun hrun' => ?_⟩
  obtain ⟨id, hskip, hunregistered, hplan, hplan'⟩ | ⟨plan, plan', hplan, hplan', hsteps⟩ :=
    checkedPlan_perm hk ha hperm skip
  · rw [run_of_checkedPlan_error hplan] at hrun
    rw [run_of_checkedPlan_error hplan'] at hrun'
    cases hrun
    cases hrun'
    exact .refused hskip hunregistered
  · obtain ⟨-, hran⟩ := (ensures_course hb hu hplan hh).sound hrun
    obtain ⟨-, hran'⟩ := (ensures_course hb' (hu.perm hperm) hplan' hh).sound hrun'
    cases result with
    | error e => exact hran.elim
    | ok report =>
      cases result' with
      | error e => exact hran'.elim
      | ok report' =>
        obtain ⟨log, -, rfl, hcourse⟩ := hran
        obtain ⟨log', -, rfl, hcourse'⟩ := hran'
        obtain ⟨hstatus, hverdict, hholds⟩ := hcourse.agree hcourse' hsteps
        exact .ended hstatus hverdict (fun target => Sum.inl.inj (hholds (.target target)))
          fun unit => Sum.inr.inj (hholds (.unit unit))

/-- A share, a unit that needs it, and a unit that needs nothing. -/
def backed : Registry := ⟨served.steps ++ [⟨"db", [], .service { name := "db", active := some true }⟩]⟩

/-- The same, registered the other way round. -/
def backedLast : Registry := ⟨backed.steps.reverse⟩

/-- The unit that needs nothing does not exist. One run comes to it last, when the share has been
mounted and the other unit started; the other run comes to it first. -/
theorem runs_alike_backed : backed.steps.Perm backedLast.steps ∧ backed.Known ∧ backed.Acyclic ∧
    backed.UnitsDiffer ∧ (webHost []).Untroubled ∧ ∃ report t report' t',
    ((⟨default, .immediate 2⟩ : Orchestrator).run backed []).run.Reaches (Stage.undisturbed some)
      ⟨webHost [], []⟩ (.done (.ok report)) t ∧
    ((⟨default, .immediate 2⟩ : Orchestrator).run backedLast []).run.Reaches (Stage.undisturbed some)
      ⟨webHost [], []⟩ (.done (.ok report')) t' ∧
    report.status = .aborted .failure ∧ report.trail ≠ report'.trail ∧
    Alike backed [] ⟨webHost [], []⟩ (.ok report) t (.ok report') t' := by
  have hb : backed.Built :=
    Registry.built_ofPlanFile (show Registry.ofPlanFile ⟨1, none, backed.steps⟩ = .ok backed from rfl)
  have hb' : backedLast.Built :=
    Registry.built_ofPlanFile (show Registry.ofPlanFile ⟨1, none, backedLast.steps⟩ = .ok backedLast from rfl)
  have hperm : backed.steps.Perm backedLast.steps := (List.reverse_perm _).symm
  have hk : backed.Known := by simp [Registry.Known, backed, served]
  have ha : backed.Acyclic := by
    refine Registry.acyclic_of_rank (fun step => step.dependsOn.length) ?_
    rintro a b ⟨ha, hb, hneeds⟩
    simp only [backed, served, List.cons_append, List.nil_append, List.mem_cons, List.not_mem_nil,
      or_false] at ha hb
    rcases ha with rfl | rfl | rfl <;> rcases hb with rfl | rfl | rfl <;> simp_all
  have hu : backed.UnitsDiffer := by simp [Registry.UnitsDiffer, backed, served]; decide
  have hh : (webHost []).Untroubled := ⟨fun _ => rfl, fun _ _ => rfl⟩
  obtain ⟨report, t, report', t', hwalk, hwalk', hstatus, htrail⟩ : ∃ report t report' t',
      ((⟨default, .immediate 2⟩ : Orchestrator).run backed []).run.walk Stage.play (fun _ _ => true) 80
        ⟨webHost [], []⟩ = some (.done (.ok report), t) ∧
      ((⟨default, .immediate 2⟩ : Orchestrator).run backedLast []).run.walk Stage.play (fun _ _ => true) 80
        ⟨webHost [], []⟩ = some (.done (.ok report'), t') ∧
      report.status = .aborted .failure ∧ report.trail ≠ report'.trail :=
    ⟨_, _, _, _, rfl, rfl, rfl, by decide⟩
  have hrun := Reaches.of_walk (fun s r _ => Stage.undisturbed_play s r) hwalk
  have hrun' := Reaches.of_walk (fun s r _ => Stage.undisturbed_play s r) hwalk'
  obtain ⟨-, -, halike⟩ := runs_alike hb hb' hperm hk ha hu (s := ⟨webHost [], []⟩) hh
  exact ⟨hperm, hk, ha, hu, hh, report, t, report', t', hrun, hrun', hstatus, htrail,
    halike _ _ _ _ hrun hrun'⟩

end Provision.Orchestrator
