import Provision.Proofs.Run.Operating

/-!
# What a run can come to

The replies to the requests of an action can always be such that it is applied, so a run that can be
planned may come to every step of its plan.

* `Chronicle.via_apply`: every action may be applied, with a call on its way that operates on the unit
  of the action if there is one.
* `Working`: a step is at work with such a call.
* `via_forward`, `reaches_forward`: a step that is not to be skipped may be at work, and the forward
  half may come to any step.
* `exists_operates_twice`: **two steps of a plan that may operate on one unit may both do so in one
  run.**
-/

namespace Provision

open Script Orchestrator Provision.Units

/-! ### Actions -/

/-- Whatever is retried starts with one attempt, and ends with it if that succeeds. -/
theorem Retry.exists_attempts {σ α : Type} (policy : Retry) (op : σ → Effects (Except HostError α × σ))
    (k : σ) : ∃ f, policy.attempts op k = (op k >>= f) ∧ ∀ a k', f (.ok a, k') = .done (.ok a, k') := by
  unfold Retry.attempts
  cases policy.maxAttempts - 1 with
  | zero => exact ⟨.done, (bind_done _).symm, fun _ _ => rfl⟩
  | succ left => exact ⟨_, rfl, fun _ _ => rfl⟩

namespace Chronicle

variable {s t : Chronicle} {α : Type}

/-- The chronicle with one more call. -/
def called (s : Chronicle) (c : HostCall) : Chronicle :=
  { s with calls := s.calls ++ [c], since := s.since ++ [c] }

theorem setting_call (s : Chronicle) (c : HostCall) (x : c.Reply) :
    setting s (.host c) x (s.called c) := rfl

/-- A request is a call that operates on this unit, if there is one. -/
def IsCallOn (unit? : Option String) (r : Effect) (_ : Chronicle) : Prop :=
  ∃ c, r = .host c ∧ ∀ unit, unit? = some unit → c.operated? = some unit

/-- What succeeds at once succeeds with retries. -/
theorem via_repeating {policy : Retry} {op : Effects (Except HostError α)} {a : α}
    {here : Effect → Chronicle → Prop} (h : op.Via setting here s (.done (.ok a)) t) :
    (policy.repeating op).Via setting here s (.done (.ok a)) t := by
  obtain ⟨f, hf, hok⟩ := policy.exists_attempts (fun () => (·, ()) <$> op) ()
  have hop : (policy.attempts (fun () => (·, ()) <$> op) ()).Via setting here s
      (.done (.ok a, ())) t := by
    rw [hf]
    have hpair : ((·, ()) <$> op >>= f).Via setting here s (f (.ok a, ())) t :=
      (h.bind_left fun r => .done (r, ())).bind_left f
    rwa [hok] at hpair
  exact hop.bind_left fun r => .done r.1

/-- What is mounted as requested is found so. -/
theorem via_mount (spec : MountSpec) (s : Chronicle) :
    (Mount.mount spec).Via setting (IsCallOn none) s (.done (.ok (.mount false)))
      (s.called (.find spec.target)) := by
  have hinspect : (Mount.inspect spec).Via setting (IsCallOn none) s
      (.done (.ok .matching)) (s.called (.find spec.target)) := by
    refine ⟨_, _, s, .here _ _, ⟨_, rfl, fun _ h => by cases h⟩,
      .ask (setting_call s _ (.ok (some (.ofSpec spec)))) (.ask (x := some) rfl ?_)⟩
    show Reaches setting (.done (.ok (if MountEntry.satisfies some (.ofSpec spec) spec = true then
      .matching else .conflicting (.ofSpec spec))) : Effects (Except HostError MountStatus)) _ _ _
    rw [if_pos (MountEntry.satisfies_ofSpec some spec)]
    exact .here _ _
  exact hinspect.bind_left _

/-- Operations succeed one after the other. -/
theorem reaches_issueAll (unit : ServiceUnit) (U : List UnitOp) (ops : List UnitOp) :
    ∀ (issued : List UnitOp) (s : Chronicle), ∃ t,
      (issueAll unit U issued ops).Reaches setting s (.done (.ok (), U)) t := by
  induction ops with
  | nil => exact fun _ s => ⟨s, .here _ _⟩
  | cons op rest ih =>
    intro issued s
    obtain ⟨t, ht⟩ := ih (issued ++ [op]) (s.called (.issue op unit.unitName))
    exact ⟨t, .ask (setting_call s _ (.ok ())) ht⟩

/-- A unit is found in some state, and what is missing then is issued. -/
theorem via_delta (unit : ServiceUnit) (U : List UnitOp) (state : UnitState)
    (hloaded : state.isLoaded = true) (s : Chronicle) : ∃ s',
      (reconcile unit U).Via setting (IsCallOn none) s
        (issueAll unit U [] (delta unit state) >>= fun r =>
          .done (r.1.map fun () => .service (delta unit state), r.2)) s' := by
  have hdiff : ∀ s : Chronicle, (diff unit).Via setting (IsCallOn none) s
      (.done (.ok (delta unit state))) (s.called (.unitState unit.unitName)) := by
    intro s
    have hknown : known unit state = .ok state := if_pos hloaded
    refine ⟨_, _, s, .here _ _, ⟨_, rfl, fun _ h => by cases h⟩,
      .ask (setting_call s _ (.ok state)) ?_⟩
    show Reaches setting (.done ((known unit state).map (delta unit))) _ _ _
    rw [hknown]
    exact .here _ _
  have hreload : ∃ s', (reloadIfAsked unit).Reaches setting s (.done (.ok ())) s' := by
    unfold reloadIfAsked
    split
    · exact ⟨_, .ask (setting_call s _ (.ok ())) (.here _ _)⟩
    · exact ⟨s, .here _ _⟩
  obtain ⟨s', hs'⟩ := hreload
  exact ⟨_, (hs'.bind_left _).via ((hdiff s').bind_left _)⟩

/-- **A unit may be reconciled**, and operated on if an operation can be missing. -/
theorem via_reconcile (unit : ServiceUnit) (U : List UnitOp) (s : Chronicle) : ∃ ops t,
    (reconcile unit U).Via setting (IsCallOn (StepAction.service unit).operated?) s
      (.done (.ok (.service ops), U)) t := by
  by_cases hidle : missableOps unit = []
  · -- some call is made, be it to look at the unit
    obtain ⟨s', hfound⟩ := via_delta unit U ⟨"loaded", "", ""⟩ rfl s
    obtain ⟨t, hissued⟩ := reaches_issueAll unit U (delta unit ⟨"loaded", "", ""⟩) [] s'
    rw [StepAction.operated?, if_pos hidle]
    exact ⟨_, t, hfound.trans (hissued.bind_left _)⟩
  · obtain ⟨state, hloaded, op, rest, hdelta⟩ := exists_delta hidle
    obtain ⟨s', hfound⟩ := via_delta unit U state hloaded s
    rw [hdelta] at hfound
    obtain ⟨t, hissued⟩ := reaches_issueAll unit U (op :: rest) [] s'
    rw [StepAction.operated?, if_neg hidle]
    exact ⟨_, t, hfound.reaches.via ⟨_, _, s', .here _ _, ⟨_, rfl, fun _ h => h⟩, hissued.bind_left _⟩⟩

/-- **Every action may be applied**, with a call on its way that operates on the unit of the action
if there is one. -/
theorem via_apply (policy : Retry) (action : StepAction) (s : Chronicle) : ∃ change t,
    (action.apply policy).Via setting (IsCallOn action.operated?) s (.done (.ok change)) t := by
  cases action with
  | mount spec => exact ⟨_, _, via_repeating (via_mount spec s)⟩
  | service unit =>
    obtain ⟨ops, t, hops⟩ := via_reconcile unit [] s
    obtain ⟨f, hf, hok⟩ := policy.exists_attempts (reconcile unit) []
    have hattempts : (policy.attempts (reconcile unit) []).Via setting
        (IsCallOn (StepAction.service unit).operated?) s (.done (.ok (.service ops), [])) t := by
      rw [hf]
      have hfirst := hops.bind_left f
      rwa [done_bind, hok] at hfirst
    exact ⟨_, t, hattempts.bind_left _⟩

end Chronicle

/-! ### Steps -/

namespace Orchestrator

open Chronicle Journal

variable {o : Orchestrator} {registry : Registry} {skip : List String} {log : RunLog} {step : Step}
  {made : List Made} {plan : RunPlan} {s t : Chronicle}

theorem reaches_request {e : Effect} {x : e.Reply} (h : setting s e x t) :
    (request (I := Effect.interface) e).Reaches setting s (.done x) t := .ask h (.here _ _)

theorem reaches_persist (log : RunLog) (s : Chronicle) :
    (persist log).run.Reaches setting s (.done (.ok ())) (s.save log) :=
  (reaches_request (e := .save log) (x := .ok ()) rfl).bind_left _

theorem reaches_recorded (log : RunLog) (id : String) (result : StepResult) (action : Option StepAction)
    (s : Chronicle) : ∃ log', (recorded log id result action).Reaches setting s (.done log') s :=
  ⟨_, (reaches_request (e := .now) (x := default) rfl).bind_left _⟩

theorem reaches_marked (log : RunLog) (step : Step) (s : Chronicle) : ∃ since,
    (marked log step).Reaches setting s (.done (marking log step since)) s :=
  ⟨_, (reaches_request (e := .now) (x := default) rfl).bind_left _⟩

/-- A step is at work with a call that operates on its unit, if there is one. -/
def Working (o : Orchestrator) (step : Step) (r : Effect) (s : Chronicle) : Prop :=
  ∃ c log, r = .host c ∧ (∀ unit, step.action.operated? = some unit → c.operated? = some unit) ∧
    s.saved.head? = some log ∧ AtWork o log (s.since ++ [c]) step.id step.action

theorem Working.operates {α : Type} {r : Effect} {k : r.Reply → Effects α} {unit : String}
    (h : Working o step r s) (hunit : step.action.operated? = some unit) :
    Operates o (.ask r k) s unit step.id := by
  obtain ⟨c, log, rfl, hoperated, hlog, hwork⟩ := h
  exact ⟨c, k, log, step.action, rfl, hoperated unit hunit, hlog, hwork⟩

/-- The step in flight may be applied, and is at work on the way. -/
theorem via_working (log : RunLog) (step : Step) (since : String) (s : Chronicle) : ∃ change t,
    (step.action.apply o.retry).Via setting (Working o step) (s.save (marking log step since))
      (.done (.ok change)) t := by
  obtain ⟨change, t, happly⟩ := via_apply o.retry step.action (s.save (marking log step since))
  refine ⟨change, t, happly.imp ?_⟩
  rintro r k u hr ⟨c, rfl, hoperated⟩
  have hcalled := (Chronicle.ensures_called ((step.action.only_apply o.retry).mono
    fun _ => Effect.serves.touchesHost) (s.save (marking log step since))).sound hr
  -- whatever the reply, the call is one of those that the action makes first
  obtain ⟨calls, hsince, hbegins⟩ := (hcalled.2 (.error (.backend "")) (u.called c) rfl).now.since
  obtain rfl : u.since ++ [c] = calls := hsince
  have hhead : u.saved.head? = some (marking log step since) := by
    rw [hcalled.now.saved]; rfl
  exact ⟨c, _, rfl, hoperated, hhead, .applying (f := ⟨step.id, step.action, since⟩) rfl hbegins⟩

/-- Every step may be applied, and is at work on the way. -/
theorem via_applyStep (log : RunLog) (step : Step) (s : Chronicle) : ∃ log' change t,
    (o.applyStep log step).run.Via setting (Working o step) s (.done (.ok (log', .ok change))) t := by
  obtain ⟨since, hmarked⟩ := reaches_marked log step s
  obtain ⟨change, t, hworking⟩ := via_working (o := o) log step since s
  obtain ⟨log', hlog'⟩ :=
    reaches_recorded (marking log step since) step.id (.applied change) (some step.action) t
  refine ⟨log', change, t.save log', ?_⟩
  refine hmarked.liftE.bindE_via ((reaches_persist _ s).bindE_via (hworking.liftE.bindE ?_))
  exact hlog'.liftE.bindE ((reaches_persist log' t).bindE (.here _ _))

/-- The operator need not want to stop. -/
theorem reaches_going (s : Chronicle) :
    (liftM Effect.isCancelled : Running Bool).run.Reaches setting s (.done (.ok false)) s :=
  (reaches_request (e := .cancelled) (x := false) rfl).liftE

/-- A step that is not to be skipped may be at work, and the forward half goes on from there. -/
theorem via_forward (hskip : step.id ∉ skip) (rest : List Step) (log : RunLog) (made : List Made)
    (s : Chronicle) : ∃ log' made' t, (o.forward skip log made (step :: rest)).run.Via setting
      (Working o step) s (o.forward skip log' made' rest).run t := by
  have hrun : ¬ skip.contains step.id = true := by simpa using hskip
  obtain ⟨log', change, t, happly⟩ := via_applyStep (o := o) log step s
  refine ⟨log', made ++ [⟨step.id, some step.action, change⟩], t, ?_⟩
  rw [forward]
  refine (reaches_going s).bindE_via ?_
  rw [if_neg Bool.false_ne_true, if_neg hrun]
  exact happly.bindE (.here _ _)

/-- The forward half may come to any step. -/
theorem reaches_forward (o : Orchestrator) (skip : List String) (before : List Step) :
    ∀ (rest : List Step) (log : RunLog) (made : List Made) (s : Chronicle), ∃ log' made' t,
      (o.forward skip log made (before ++ rest)).run.Reaches setting s
        (o.forward skip log' made' rest).run t := by
  induction before with
  | nil => exact fun rest log made s => ⟨log, made, s, .here _ _⟩
  | cons step before ih =>
    intro rest log made s
    by_cases hskip : step.id ∈ skip
    · have hskipped : skip.contains step.id = true := by simpa using hskip
      obtain ⟨log₁, hlog₁⟩ := reaches_recorded log step.id .skipped none s
      obtain ⟨log', made', t, hrest⟩ := ih rest log₁ made (s.save log₁)
      refine ⟨log', made', t, ?_⟩
      rw [List.cons_append, forward]
      refine (reaches_going s).bindE ?_
      rw [if_neg Bool.false_ne_true, if_pos hskipped]
      exact hlog₁.liftE.bindE ((reaches_persist log₁ s).bindE hrest)
    · obtain ⟨log₁, made₁, t₁, hstep⟩ := via_forward (o := o) hskip (before ++ rest) log made s
      obtain ⟨log', made', t, hrest⟩ := ih rest log₁ made₁ t₁
      exact ⟨log', made', t, hstep.reaches.trans hrest⟩

/-- What is done while the lock is held may be done. -/
theorem reaches_locked {α : Type} (act : Running α) (s : Chronicle) :
    ∃ f, (o.locked act).run.Reaches setting s (act.run >>= f) s := by
  have hlock : (ExceptT.mk ((·.mapError RunError.io) <$> request (I := Effect.interface) .lock) :
      Running Bool).run.Reaches setting s (.done (.ok true)) s :=
    (reaches_request (e := .lock) (x := .ok true) rfl).bind_left _
  refine ⟨fun result => (do
    request (I := Effect.interface) .unlock
    ExceptT.mk (.done result) : Running α).run, hlock.bindE ?_⟩
  rw [if_pos rfl, ExceptT.run_bind_lift]
  exact .here _ _

/-- The log of a new run may come to be on disk. -/
theorem reaches_start (ids : List String) (s : Chronicle) : ∃ log t,
    (stored (Journal.start ids)).run.Reaches setting s (.done (.ok log)) t := by
  have hclock : (liftM Effect.clock : Kept StoreError Instant).run.Reaches setting s
      (.done (.ok default)) s := (reaches_request (e := .now) (x := default) rfl).liftE
  have hprocess : (liftM (request (I := Effect.interface) .process) : Kept StoreError Nat).run.Reaches
      setting s (.done (.ok 0)) s := (reaches_request (e := .process) (x := 0) rfl).liftE
  have hsave : ∀ log (s : Chronicle), (Journal.save log).run.Reaches setting s (.done (.ok ()))
      (s.save log) := fun log s => reaches_request (e := .save log) (x := .ok ()) rfl
  have hstart : ∃ log t, (Journal.start ids).run.Reaches setting s (.done (.ok log)) t :=
    ⟨_, _, (hclock.bindE (hprocess.bindE (hclock.bindE ((hsave _ s).bindE (.here _ _))))).bindE
      ((hsave _ _).bindE (.here _ _))⟩
  obtain ⟨log, t, hstart⟩ := hstart
  exact ⟨log, t, hstart.bind_left _⟩

/-- A run that can be planned may come to its forward half. -/
theorem reaches_run (hplan : checkedPlan registry skip = .ok plan) :
    ∃ (f : Except RunError Progress → Effects (Except RunError RunReport)) (log : RunLog)
      (s : Chronicle), (o.run registry skip).run.Reaches setting {}
        ((o.forward skip log [] plan.steps).run >>= f) s := by
  have hprepare : (stored (request (I := Effect.interface) .prepare)).run.Reaches setting {}
      (.done (.ok ())) {} := (reaches_request (e := .prepare) (x := .ok ()) rfl).bind_left _
  obtain ⟨log, s, hstart⟩ := reaches_start plan.ids {}
  obtain ⟨f, hlocked⟩ := reaches_locked (o := o) (o.carryOut skip plan) {}
  have hcarry : ∃ g, (o.carryOut skip plan).run.Reaches setting {}
      ((o.forward skip log [] plan.steps).run >>= g) s :=
    ⟨_, hprepare.bindE (hstart.bindE (.here _ _))⟩
  obtain ⟨g, hcarry⟩ := hcarry
  refine ⟨fun r => g r >>= f, log, s, ?_⟩
  rw [run_of_checkedPlan hplan, ← Script.bind_assoc]
  exact hlocked.trans (hcarry.bind_left f)

/-- The later one of two steps of a plan may be at work after the earlier one was. -/
theorem exists_operates_twice (hplan : checkedPlan registry skip = .ok plan)
    {before between after : List Step} {a b : Step}
    (horder : plan.steps = before ++ a :: (between ++ b :: after)) (ha : a.id ∉ skip)
    (hb : b.id ∉ skip) {unit : String} (hunit : a.action.operated? = some unit)
    (hunit' : b.action.operated? = some unit) : ∃ p s q t,
      (o.run registry skip).run.Reaches setting {} p s ∧ p.Reaches setting s q t ∧
      Operates o p s unit a.id ∧ Operates o q t unit b.id := by
  obtain ⟨f, log, s₀, hrun⟩ := reaches_run (o := o) hplan
  obtain ⟨log₁, made₁, s₁, hbefore⟩ :=
    reaches_forward o skip before (a :: (between ++ b :: after)) log [] s₀
  obtain ⟨log₂, made₂, s₂, hfirst⟩ := via_forward (o := o) ha (between ++ b :: after) log₁ made₁ s₁
  obtain ⟨log₃, made₃, s₃, hbetween⟩ := reaches_forward o skip between (b :: after) log₂ made₂ s₂
  obtain ⟨log₄, made₄, s₄, hsecond⟩ := via_forward (o := o) hb after log₃ made₃ s₃
  rw [horder] at hrun
  obtain ⟨r, k, s, hs, hworking, hon⟩ := hrun.via ((hbefore.via hfirst).bind_left f)
  obtain ⟨r', k', t, ht, hworking', -⟩ := (hbetween.via hsecond).bind_left f
  exact ⟨_, s, _, t, hs, hon.trans ht, hworking.operates hunit, hworking'.operates hunit'⟩

end Orchestrator

end Provision
