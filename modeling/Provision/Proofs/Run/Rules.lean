import Provision.Proofs.Script.Reach
import Provision.Run.Orchestrator

/-!
# Rules for the parts of a run

What each part of a run ensures, in any setting in which the world changes by
calls to the host and by saving logs only.

* `Quiet`: such a setting.
* `Saving`: what is to hold once a log has been saved, or could not be.
* `ensures_applyStep`: the intent on disk, the calls of the step, the outcome on
  disk.
* `ensures_undo`: what undoing a change with its action comes to.
* `ensures_forward`, `ensures_unwindAll`: an invariant that one step of the loop
  keeps is kept by the loop.
* `ensures_locked`, `ensures_carryOut`, `ensures_rollbackLog`, `ensures_rollback`: the whole.
* `ensures_forward_stopped`, `ensures_carryOut_prepared`, `ensures_locked_held`,
  `ensures_rollback_free`: the same where it matters what is in the way.
-/

namespace Provision

open Script Journal

/-- The requests that change nothing which matters to a run. -/
def Effect.isQuiet : Effect → Bool
  | host _ | save _ => false
  | resolve _ | pause _ | cancelled | now | process | lock | unlock | prepare | load _ | latest => true

/-- Only calls to the host and saving logs change the world. -/
def Quiet {σ : Type} (w : Setting Effect.interface σ) : Prop :=
  ∀ s (e : Effect) x s', e.isQuiet → w s e x s' → s' = s

section Rules

variable {σ α : Type} {w : Setting Effect.interface σ} {always : σ → Prop}
  {refused : RunError → σ → Prop}

/-- What is to hold once a log has been saved, or could not be saved. -/
def Saving (w : Setting Effect.interface σ) (always : σ → Prop) (refused : RunError → σ → Prop)
    (post : σ → Prop) (log : RunLog) (s : σ) : Prop :=
  ∀ (x : Except StoreError Unit) s', w s (.save log) x s' →
    always s' ∧ onResult (fun _ s' => post s') (fun e s' => refused (.store e) s') x s'

theorem ensures_quiet (hw : Quiet w) {e : Effect} (he : e.isQuiet) {post : e.Reply → σ → Prop} {s : σ}
    (hs : always s) (h : ∀ x, post x s) :
    (request (I := Effect.interface) e).Ensures w always post s := by
  refine (ensures_request s).2 ⟨hs, fun x s' hx => ?_⟩
  obtain rfl := hw _ _ _ _ he hx
  exact ⟨hs, h x⟩

theorem ensures_stored {p : Effects (Except StoreError α)} {post : α → σ → Prop} {s : σ} :
    (stored p).run.Ensures w always (onResult post refused) s ↔
      p.Ensures w always (onResult post fun e s => refused (.store e) s) s := by
  show ((·.mapError RunError.store) <$> p).Ensures w always _ s ↔ _
  rw [ensures_map]
  constructor <;> refine fun h => h.imp fun r _ _ hr => ?_ <;> cases r <;> exact hr

theorem ensures_persist {post : Unit → σ → Prop} {log : RunLog} {s : σ} (hs : always s)
    (h : Saving w always refused (post ()) log s) :
    (Orchestrator.persist log).run.Ensures w always (onResult post refused) s := by
  refine ensures_stored.2 ((ensures_request s).2 ⟨hs, fun x s' hx => ?_⟩)
  obtain ⟨h₁, h₂⟩ := h x s' hx
  refine ⟨h₁, ?_⟩
  cases x <;> exact h₂

theorem ensures_recorded (hw : Quiet w) {log : RunLog} {step : String} {result : StepResult}
    {action : Option StepAction} {post : RunLog → σ → Prop} {s : σ} (hs : always s)
    (h : ∀ now, post (log.push ⟨step, result, action, now⟩) s) :
    (recorded log step result action).Ensures w always post s :=
  ensures_bind.2 <| ensures_quiet hw rfl hs fun now => ⟨hs, h now.rfc3339⟩

namespace Orchestrator

variable {o : Orchestrator} {log : RunLog} {s : σ}

/-- The log of a step that is about to be applied. -/
def marking (log : RunLog) (step : Step) (since : String) : RunLog :=
  { log with inFlight := some ⟨step.id, step.action, since⟩ }

/-- The log of a step once it has been applied, or has failed. -/
def settled (log : RunLog) (step : Step) (now : String) : Except HostError Change → RunLog
  | .ok change => log.push ⟨step.id, .applied change, some step.action, now⟩
  | .error e => failed log step.id e.toFailure

/-- **Applying a step**: the intent is on disk before the host is touched, and the
outcome right after. -/
theorem ensures_applyStep (hw : Quiet w) {step : Step} {post : RunLog × Except Failure Change → σ → Prop}
    (hs : always s)
    (h : ∀ since, Saving w always refused
      (fun s => (step.action.apply o.retry).Ensures w always (fun r s => ∀ now,
        Saving w always refused
          (post (settled (marking log step since) step now r, r.mapError HostError.toFailure))
          (settled (marking log step since) step now r) s) s) (marking log step since) s) :
    (o.applyStep log step).run.Ensures w always (onResult post refused) s := by
  unfold applyStep
  refine ensures_bindE.2 (ensures_liftE.2 (ensures_bind.2 (ensures_quiet hw rfl hs fun since => ?_)))
  refine ⟨hs, ensures_bindE.2 (ensures_persist hs fun x s' hx => ?_)⟩
  obtain ⟨h₁, h₂⟩ := h since.rfc3339 x s' hx
  refine ⟨h₁, ?_⟩
  cases x with
  | error e => exact h₂
  | ok _ =>
    refine ensures_bindE.2 (ensures_liftE.2 ?_)
    refine Ensures.imp h₂ fun r t ht hr => ?_
    cases r with
    | ok change =>
      refine ensures_bindE.2 (ensures_liftE.2 (ensures_recorded hw ht fun now => ?_))
      refine ensures_bindE.2 (ensures_persist ht fun x t' hx => ?_)
      obtain ⟨h₃, h₄⟩ := hr now x t' hx
      refine ⟨h₃, ?_⟩
      cases x with
      | error e => exact h₄
      | ok _ => exact ⟨h₃, h₄⟩
    | error e =>
      refine ensures_bindE.2 (ensures_persist ht fun x t' hx => ?_)
      obtain ⟨h₃, h₄⟩ := hr "" x t' hx
      refine ⟨h₃, ?_⟩
      cases x with
      | error e => exact h₄
      | ok _ => exact ⟨h₃, h₄⟩

/-- **Undoing a change** comes to what undoing it with its action does. -/
theorem ensures_undo {m : Made} {action : StepAction} {undone stuck : σ → Prop}
    (hm : m.action = some action)
    (h : (action.rollback o.retry m.change).Ensures w always
      (fun r s => (r.isOk = true → undone s) ∧ (r.isOk = false → stuck s)) s) :
    (o.undo m).Ensures w always
      (fun r s => (r = .rolledBack → undone s) ∧ (r ≠ .rolledBack → stuck s)) s := by
  unfold Orchestrator.undo
  rw [hm]
  refine ensures_bind.2 (h.imp ?_)
  rintro (e | _) t ht ⟨hundone, hstuck⟩
  · exact ⟨ht, (fun hr => by cases hr), fun _ => hstuck rfl⟩
  · exact ⟨ht, fun _ => hundone rfl, fun hr => absurd rfl hr⟩

/-- **The forward half**: what holds at every boundary between two steps and is
kept by each step holds where the half ends, be it because the operator wants to stop. -/
theorem ensures_forward_stopped (hw : Quiet w) {skip : List String}
    {inv : List Step → RunLog → List Made → σ → Prop} {post : Progress → σ → Prop}
    (hinv : ∀ rest log made s, inv rest log made s → always s)
    (hcomplete : ∀ log made s, inv [] log made s → post ⟨log, made, .complete⟩ s)
    (hcancelled : ∀ step rest log made s, w s .cancelled true s → inv (step :: rest) log made s →
      post ⟨log, made, .cancelled⟩ s)
    (hskipped : ∀ step rest log made s, step.id ∈ skip → inv (step :: rest) log made s →
      ∀ now, Saving w always refused (inv rest (log.push ⟨step.id, .skipped, none, now⟩) made)
        (log.push ⟨step.id, .skipped, none, now⟩) s)
    (happlied : ∀ step rest log made s, step.id ∉ skip → inv (step :: rest) log made s →
      (o.applyStep log step).run.Ensures w always (onResult (fun r s =>
        match r with
        | (log, .ok change) => inv rest log (made ++ [⟨step.id, some step.action, change⟩]) s
        | (log, .error f) => post ⟨log, made, .failed step f⟩ s) refused) s)
    (steps : List Step) : ∀ (log : RunLog) (made : List Made) (s : σ), inv steps log made s →
      (o.forward skip log made steps).run.Ensures w always (onResult post refused) s := by
  induction steps with
  | nil => exact fun log made s h => ⟨hinv _ _ _ _ h, hcomplete _ _ _ h⟩
  | cons step rest ih =>
    intro log made s h
    have hs := hinv _ _ _ _ h
    unfold forward
    refine ensures_bindE.2 (ensures_liftE.2 ((ensures_request s).2 ⟨hs, fun stop s' hx => ⟨?_, ?_⟩⟩))
    · obtain rfl := hw _ _ _ _ rfl hx
      exact hs
    obtain rfl := hw _ _ _ _ rfl hx
    cases (stop : Bool) with
    | true => exact ⟨hs, hcancelled _ _ _ _ _ hx h⟩
    | false =>
      by_cases hskip : skip.contains step.id = true
      · rw [if_neg Bool.false_ne_true, if_pos hskip]
        refine ensures_bindE.2 (ensures_liftE.2 (ensures_recorded hw hs fun now => ?_))
        refine ensures_bindE.2 (ensures_persist hs ?_)
        intro x s' hx
        obtain ⟨h₁, h₂⟩ := hskipped _ _ _ _ _ (by simpa using hskip) h now x s' hx
        refine ⟨h₁, ?_⟩
        cases x with
        | error e => exact h₂
        | ok _ => exact ih _ _ _ h₂
      · rw [if_neg Bool.false_ne_true, if_neg hskip]
        refine ensures_bindE.2 ((happlied _ _ _ _ _ (by simpa using hskip) h).imp fun r t ht hr => ?_)
        obtain e | ⟨log', f | change⟩ := r
        · exact hr
        · exact ⟨ht, hr⟩
        · exact ih _ _ _ hr

/-- The same wherever the operator may want to stop. -/
theorem ensures_forward (hw : Quiet w) {skip : List String}
    {inv : List Step → RunLog → List Made → σ → Prop} {post : Progress → σ → Prop}
    (hinv : ∀ rest log made s, inv rest log made s → always s)
    (hcomplete : ∀ log made s, inv [] log made s → post ⟨log, made, .complete⟩ s)
    (hcancelled : ∀ step rest log made s, inv (step :: rest) log made s →
      post ⟨log, made, .cancelled⟩ s)
    (hskipped : ∀ step rest log made s, step.id ∈ skip → inv (step :: rest) log made s →
      ∀ now, Saving w always refused (inv rest (log.push ⟨step.id, .skipped, none, now⟩) made)
        (log.push ⟨step.id, .skipped, none, now⟩) s)
    (happlied : ∀ step rest log made s, step.id ∉ skip → inv (step :: rest) log made s →
      (o.applyStep log step).run.Ensures w always (onResult (fun r s =>
        match r with
        | (log, .ok change) => inv rest log (made ++ [⟨step.id, some step.action, change⟩]) s
        | (log, .error f) => post ⟨log, made, .failed step f⟩ s) refused) s)
    (steps : List Step) : ∀ (log : RunLog) (made : List Made) (s : σ), inv steps log made s →
      (o.forward skip log made steps).run.Ensures w always (onResult post refused) s :=
  ensures_forward_stopped hw hinv hcomplete (fun step rest log made s _ => hcancelled step rest log made s)
    hskipped happlied steps

/-- **Unwinding**: what holds between two changes that are undone, and is kept by
undoing one and recording it, holds at the end. -/
theorem ensures_unwindAll (hw : Quiet w) {inv : List Made → RunLog → Bool → σ → Prop}
    (hinv : ∀ todo log clean s, inv todo log clean s → always s)
    (hstep : ∀ m rest log clean s, inv (m :: rest) log clean s →
      (o.undo m).Ensures w always (fun result s => ∀ now,
        Saving w always refused
          (inv rest (log.push ⟨m.step, result, m.action, now⟩) (clean && result = .rolledBack))
          (log.push ⟨m.step, result, m.action, now⟩) s) s)
    {todo : List Made} (h : inv todo log true s) :
    (o.unwindAll log todo).run.Ensures w always (onResult (fun r s => inv [] r.1 r.2 s) refused) s := by
  -- what is clean so far is and-ed to what the rest of the list comes to
  suffices hall : ∀ (todo : List Made) (log : RunLog) (clean : Bool) (s : σ), inv todo log clean s →
      (o.unwindAll log todo).run.Ensures w always
        (onResult (fun r s => inv [] r.1 (clean && r.2) s) refused) s by
    simpa only [Bool.true_and] using hall todo log true s h
  clear h
  intro todo
  induction todo with
  | nil =>
    intro log clean s h
    refine ensures_pureE.2 ⟨hinv _ _ _ _ h, ?_⟩
    rw [Bool.and_true]; exact h
  | cons m rest ih =>
    intro log clean s h
    unfold unwindAll
    refine ensures_bindE.2 (ensures_liftE.2 ((hstep m rest log clean s h).imp fun result t ht hr => ?_))
    refine ensures_bindE.2 (ensures_liftE.2 (ensures_recorded hw ht fun now => ?_))
    refine ensures_bindE.2 (ensures_persist ht ?_)
    intro x t' hx
    obtain ⟨h₁, h₂⟩ := hr now x t' hx
    refine ⟨h₁, ?_⟩
    cases x with
    | error e => exact h₂
    | ok _ =>
      refine ensures_bindE.2 ((ih _ _ _ h₂).imp fun r u hu hr => ?_)
      obtain e | ⟨log', clean'⟩ := r
      · exact hr
      · refine ⟨hu, ?_⟩
        rw [onResult_ok, Bool.and_assoc] at hr
        exact hr

/-- What is to hold once the way a run ended has been recorded: only a failure
takes an entry. -/
def Halting (w : Setting Effect.interface σ) (always : σ → Prop) (refused : RunError → σ → Prop)
    (post : RunLog → σ → Prop) (log : RunLog) (s : σ) : Halt → Prop
  | .complete | .cancelled => post log s
  | .failed step f => ∀ now,
    Saving w always refused (post (log.push ⟨step.id, .failed f, some step.action, now⟩))
      (log.push ⟨step.id, .failed f, some step.action, now⟩) s

theorem ensures_recordHalt (hw : Quiet w) {halt : Halt} {post : RunLog → σ → Prop} (hs : always s)
    (h : Halting w always refused post log s halt) :
    (recordHalt log halt).run.Ensures w always (onResult post refused) s := by
  cases halt with
  | complete => exact ⟨hs, h⟩
  | cancelled => exact ⟨hs, h⟩
  | failed step f =>
    refine ensures_bindE.2 (ensures_liftE.2 (ensures_recorded hw hs fun now => ?_))
    refine ensures_bindE.2 (ensures_persist hs fun x s' hx => ?_)
    obtain ⟨h₁, h₂⟩ := h now x s' hx
    refine ⟨h₁, ?_⟩
    cases x with
    | error e => exact h₂
    | ok _ => exact ⟨h₁, h₂⟩

/-- The log of a run that has ended. -/
def closing (log : RunLog) (status : RunStatus) (now : String) : RunLog :=
  { log with status, finishedAt := some now }

theorem ensures_close (hw : Quiet w) {status : RunStatus} {post : RunLog → σ → Prop} (hs : always s)
    (h : ∀ now, Saving w always refused (post (closing log status now)) (closing log status now) s) :
    (close log status).run.Ensures w always (onResult post refused) s := by
  refine ensures_bindE.2 (ensures_liftE.2 (ensures_bind.2 (ensures_quiet hw rfl hs fun now => ⟨hs, ?_⟩)))
  refine ensures_bindE.2 (ensures_persist hs fun x s' hx => ?_)
  obtain ⟨h₁, h₂⟩ := h now.rfc3339 x s' hx
  refine ⟨h₁, ?_⟩
  cases x with
  | error e => exact h₂
  | ok _ => exact ⟨h₁, h₂⟩

/-- What is to hold once the forward half has ended: what was made is undone if it
has to be, the end is recorded, and the log is closed. -/
def Finishing (w : Setting Effect.interface σ) (always : σ → Prop) (refused : RunError → σ → Prop)
    (o : Orchestrator) (post : RunReport → σ → Prop) (p : Progress) (s : σ) : Prop :=
  (o.unwindAll p.log p.toUndo).run.Ensures w always (onResult (fun r s =>
    Halting w always refused (fun log s => ∀ now,
      Saving w always refused (post (.ofLog (closing log p.halt.status now) r.2))
        (closing log p.halt.status now) s) r.1 s p.halt) refused) s

/-- The log of a new run that is running. -/
def running (id started : String) (plan : List String) : RunLog :=
  { RunLog.start id started plan with status := .running }

/-- The log of a new run is put on disk twice, as not started and as running. -/
theorem ensures_start (hw : Quiet w) {plan : List String} {post : RunLog → σ → Prop} (hs : always s)
    (h : ∀ id started, Saving w always refused
      (fun s => Saving w always refused (post (running id started plan)) (running id started plan) s)
      (RunLog.start id started plan) s) :
    (stored (Journal.start plan)).run.Ensures w always (onResult post refused) s := by
  refine ensures_stored.2 (ensures_bindE.2 ?_)
  refine ensures_bindE.2 (ensures_liftE.2 (ensures_quiet hw rfl hs fun created => ?_))
  refine ensures_bindE.2 (ensures_liftE.2 (ensures_quiet hw rfl hs fun process => ?_))
  refine ensures_bindE.2 (ensures_liftE.2 (ensures_quiet hw rfl hs fun started => ?_))
  refine ensures_bindE.2 ((ensures_request s).2 ⟨hs, fun x s' hx => ?_⟩)
  obtain ⟨h₁, h₂⟩ := h _ _ x s' hx
  refine ⟨h₁, ?_⟩
  cases (x : Except StoreError Unit) with
  | error e => exact h₂
  | ok _ =>
    refine ⟨h₁, ensures_bindE.2 ((ensures_request s').2 ⟨h₁, fun x t hx => ?_⟩)⟩
    obtain ⟨h₃, h₄⟩ := h₂ x t hx
    refine ⟨h₃, ?_⟩
    cases (x : Except StoreError Unit) with
    | error e => exact h₄
    | ok _ => exact ⟨h₃, h₄⟩

/-- **Carrying out a plan**: after the log of a new run come the forward half and
what follows it. -/
theorem ensures_carryOut_prepared (hw : Quiet w) {skip : List String} {plan : RunPlan}
    {post : RunReport → σ → Prop} (hs : always s)
    (hprepare : ∀ e, w s .prepare (.error e) s → refused (.store e) s)
    (h : ∀ id started, Saving w always refused
      (fun s => Saving w always refused (fun s =>
        (o.forward skip (running id started plan.ids) [] plan.steps).run.Ensures w always
            (onResult (Finishing w always refused o post) refused) s)
        (running id started plan.ids) s)
      (RunLog.start id started plan.ids) s) :
    (o.carryOut skip plan).run.Ensures w always (onResult post refused) s := by
  refine ensures_bindE.2 (ensures_stored.2 ((ensures_request s).2 ⟨hs, fun made s' hx => ?_⟩))
  obtain rfl : s = s' := (hw _ _ _ _ rfl hx).symm
  refine ⟨hs, ?_⟩
  cases (made : Except StoreError Unit) with
  | error e => exact hprepare e hx
  | ok _ =>
    have hstart : (stored (Journal.start plan.ids)).run.Ensures w always (onResult (fun log s =>
        (o.forward skip log [] plan.steps).run.Ensures w always
          (onResult (Finishing w always refused o post) refused) s) refused) s :=
      ensures_start hw hs h
    refine ensures_bindE.2 (hstart.imp fun r t _ hr => ?_)
    cases r with
    | error e => exact hr
    | ok log =>
      refine ensures_bindE.2 (Ensures.imp hr fun r t _ hr => ?_)
      cases r with
      | error e => exact hr
      | ok p =>
        refine ensures_bindE.2 (Ensures.imp hr fun r t ht hr => ?_)
        obtain e | ⟨log, clean⟩ := r
        · exact hr
        · have hhalt : (recordHalt log p.halt).run.Ensures w always (onResult (fun log s => ∀ now,
              Saving w always refused (post (.ofLog (closing log p.halt.status now) clean))
                (closing log p.halt.status now) s) refused) t := ensures_recordHalt hw ht hr
          refine ensures_bindE.2 (hhalt.imp fun r u hu hr => ?_)
          cases r with
          | error e => exact hr
          | ok log =>
            have hclose : (close log p.halt.status).run.Ensures w always
                (onResult (fun log s => post (.ofLog log clean) s) refused) u :=
              ensures_close hw hu hr
            refine ensures_bindE.2 (hclose.imp fun r v hv hr => ?_)
            cases r with
            | error e => exact hr
            | ok log => exact ⟨hv, hr⟩

/-- The same where it does not matter why a run is refused. -/
theorem ensures_carryOut (hw : Quiet w) {skip : List String} {plan : RunPlan}
    {post : RunReport → σ → Prop} (hs : always s) (hrefused : ∀ e, refused e s)
    (h : ∀ id started, Saving w always refused
      (fun s => Saving w always refused (fun s =>
        (o.forward skip (running id started plan.ids) [] plan.steps).run.Ensures w always
            (onResult (Finishing w always refused o post) refused) s)
        (running id started plan.ids) s)
      (RunLog.start id started plan.ids) s) :
    (o.carryOut skip plan).run.Ensures w always (onResult post refused) s :=
  ensures_carryOut_prepared hw hs (fun _ _ => hrefused _) h

/-- **The run lock**: what is done while it is held, and nothing otherwise. -/
theorem ensures_locked_held (hw : Quiet w) {act : Running α} {post : α → σ → Prop} (hs : always s)
    (hheld : ∀ x : Except IoError Bool, w s .lock x s → x ≠ .ok true → ∀ e, refused e s)
    (h : act.run.Ensures w always (onResult post refused) s) :
    (o.locked act).run.Ensures w always (onResult post refused) s := by
  refine ensures_bindE.2 (ensures_map.2 ((ensures_request s).2 ⟨hs, fun free s' hx => ?_⟩))
  obtain rfl := hw _ _ _ _ rfl hx
  refine ⟨hs, ?_⟩
  obtain e | _ | _ := (free : Except IoError Bool)
  · exact hheld _ hx (by simp) _
  · exact ⟨hs, hheld _ hx (by simp) _⟩
  · refine ensures_bindE.2 (ensures_liftE.2 (h.imp fun r t ht hr => ?_))
    exact ensures_bindE.2 (ensures_liftE.2 (ensures_quiet hw rfl ht fun _ => ⟨ht, hr⟩))

theorem ensures_locked (hw : Quiet w) {act : Running α} {post : α → σ → Prop} (hs : always s)
    (hrefused : ∀ e, refused e s) (h : act.run.Ensures w always (onResult post refused) s) :
    (o.locked act).run.Ensures w always (onResult post refused) s :=
  ensures_locked_held hw hs (fun _ _ _ => hrefused) h

/-- **A run**: of the plan that the registry makes, unless there is none or a step
that is not in it is to be skipped. -/
theorem ensures_run (hw : Quiet w) {registry : Registry} {skip : List String}
    {post : RunReport → σ → Prop} (hs : always s) (hrefused : ∀ e, refused e s)
    (h : ∀ plan, checkedPlan registry skip = .ok plan →
      (o.carryOut skip plan).run.Ensures w always (onResult post refused) s) :
    (o.run registry skip).run.Ensures w always (onResult post refused) s := by
  refine ensures_bindE.2 ⟨hs, ?_⟩
  cases hplan : checkedPlan registry skip with
  | error e => exact hrefused _
  | ok plan => exact ensures_locked hw hs hrefused (h plan hplan)

/-- A run whose plan is made. -/
theorem run_of_checkedPlan {registry : Registry} {skip : List String} {plan : RunPlan}
    (hplan : checkedPlan registry skip = .ok plan) :
    (o.run registry skip).run = (o.locked (o.carryOut skip plan)).run := by
  unfold run
  rw [hplan]
  rfl

/-- A run whose plan cannot be made asks for nothing. -/
theorem run_of_checkedPlan_error {registry : Registry} {skip : List String} {e : RunError}
    (hplan : checkedPlan registry skip = .error e) : (o.run registry skip).run = .done (.error e) := by
  unfold run
  rw [hplan]
  rfl

/-- **Rolling back a log**: nothing is done if nothing is left over. -/
theorem ensures_rollbackLog (hw : Quiet w) {post : RunReport → σ → Prop} (hs : always s)
    (hnothing : leftover log = [] → post (.ofLog log true) s)
    (h : leftover log ≠ [] → (o.unwindAll log (leftover log).reverse).run.Ensures w always
      (onResult (fun r s => ∀ now, Saving w always refused
        (post (.ofLog (closing r.1 (rolledBackStatus log.status) now) r.2))
        (closing r.1 (rolledBackStatus log.status) now) s) refused) s) :
    (o.rollbackLog log).run.Ensures w always (onResult post refused) s := by
  unfold rollbackLog
  by_cases hl : leftover log = []
  · rw [if_pos hl]; exact ⟨hs, hnothing hl⟩
  · rw [if_neg hl]
    refine ensures_bindE.2 ((h hl).imp fun r t ht hr => ?_)
    obtain e | ⟨unwound, clean⟩ := r
    · exact hr
    · have hclose : (close unwound (rolledBackStatus log.status)).run.Ensures w always
          (onResult (fun closed s => post (.ofLog closed clean) s) refused) t :=
        ensures_close hw ht hr
      refine ensures_bindE.2 (hclose.imp fun r u hu hr => ?_)
      cases r with
      | error e => exact hr
      | ok closed => exact ⟨hu, hr⟩

/-- What may come of loading the log of a run, or of the most recent one. -/
def Loads (w : Setting Effect.interface σ) (s : σ) : Option String → Except StoreError RunLog → Prop
  | some id, x => w s (.load id) x s
  | none, x => w s .latest x s

theorem ensures_loadLog (hw : Quiet w) {id : Option String} {post : RunLog → σ → Prop} (hs : always s)
    (h : ∀ x, Loads w s id x → onResult post (fun e s => refused (.store e) s) x s) :
    (loadLog id).run.Ensures w always (onResult post refused) s := by
  refine ensures_stored.2 ?_
  cases id with
  | some id =>
    refine (ensures_request s).2 ⟨hs, fun x t hx => ?_⟩
    obtain rfl : t = s := hw _ _ _ _ rfl hx
    exact ⟨hs, h x hx⟩
  | none =>
    refine (ensures_request s).2 ⟨hs, fun x t hx => ?_⟩
    obtain rfl : t = s := hw _ _ _ _ rfl hx
    exact ⟨hs, h x hx⟩

/-- **Rolling back a recorded run**: whichever log is loaded. -/
theorem ensures_rollback (hw : Quiet w) {id : Option String} {post : RunReport → σ → Prop}
    (hs : always s) (hrefused : ∀ e, refused e s)
    (h : ∀ log, Loads w s id (.ok log) →
      (o.rollbackLog log).run.Ensures w always (onResult post refused) s) :
    (o.rollbackRun id).run.Ensures w always (onResult post refused) s := by
  refine ensures_locked hw hs hrefused (ensures_bindE.2 (ensures_loadLog hw hs fun x hx => ?_))
  cases x with
  | error e => exact hrefused _
  | ok log => exact h log hx

/-- **Rolling back a recorded run where nothing is in the way**: the lock is free, and the log
is loaded. -/
theorem ensures_rollback_free (hw : Quiet w) {id : Option String} {post : RunReport → σ → Prop}
    (hs : always s) (hlock : ∀ (x : Except IoError Bool) t, w s .lock x t → x = .ok true)
    (hloads : ∀ x, Loads w s id x → x = .ok log)
    (h : (o.rollbackLog log).run.Ensures w always (onResult post refused) s) :
    (o.rollbackRun id).run.Ensures w always (onResult post refused) s := by
  have hbody : (do o.rollbackLog (← loadLog id)).run.Ensures w always (onResult post refused) s := by
    refine ensures_bindE.2 (ensures_loadLog hw hs fun x hx => ?_)
    obtain rfl := hloads x hx
    exact h
  exact ensures_locked_held hw hs (fun x hx hne => absurd (hlock x s hx) hne) hbody

end Orchestrator

end Rules

end Provision
