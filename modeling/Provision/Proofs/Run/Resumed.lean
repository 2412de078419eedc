import Mathlib.Logic.Relation
import Provision.Proofs.Run.Chronicle

/-!
# Going on from the log on disk

Rolling back goes on from a log that is on disk. What it puts there instead says the same of
the run and adds entries; what is still to be undone is left to undo in it.

* `RunLog.Continues`, `Appends`: a log that goes on from another one, and putting it on disk.
* `ensures_unwound`: undoing what a log says is left over stays ahead, and what was undone is
  left over no longer.
* `RollsBack`: what one invocation that rolls back a run makes of the disk, stopped anywhere.
* `rollsBack_going`: **any number of such invocations only append to the log and leave it
  coherent**.
-/

namespace Provision

open Script Orchestrator Relation

/-- A log goes on from another one: it says the same of the run, and has the same entries and
then others. -/
structure RunLog.Continues (log log' : RunLog) : Prop where
  runId : log'.runId = log.runId
  startedAt : log'.startedAt = log.startedAt
  plan : log'.plan = log.plan
  failure : log'.failure = log.failure
  entries : log.entries <+: log'.entries

theorem RunLog.continues_push (log : RunLog) (e : LogEntry) : log.Continues (log.push e) :=
  ⟨rfl, rfl, rfl, rfl, List.prefix_append _ _⟩

theorem RunLog.continues_closing (log : RunLog) (status : RunStatus) (now : String) :
    log.Continues (closing log status now) := ⟨rfl, rfl, rfl, rfl, List.prefix_rfl⟩

theorem RunLog.Continues.trans {log log' log'' : RunLog} (h : log.Continues log')
    (h' : log'.Continues log'') : log.Continues log'' :=
  ⟨h'.runId.trans h.runId, h'.startedAt.trans h.startedAt, h'.plan.trans h.plan,
    h'.failure.trans h.failure, h.entries.trans h'.entries⟩

/-- A log is put on disk that goes on from the last one. -/
def Appends (saved saved' : List RunLog) : Prop :=
  ∃ log log', saved.head? = some log ∧ log.Continues log' ∧ saved' = log' :: saved

namespace Orchestrator

variable {o : Orchestrator} {id : Option String} {log : RunLog} {s₀ s t : Chronicle} {m : Made}
  {todo : List Made} {clean : Bool}

/-- An invocation is ahead, and has only appended to the log. -/
structure Going (o : Orchestrator) (s₀ s : Chronicle) : Prop where
  ahead : Ahead o s
  appended : ReflTransGen Appends s₀.saved s.saved

/-- An invocation that is about to undo the rest of what was left over. -/
structure Undoing (o : Orchestrator) (s₀ : Chronicle) (todo : List Made) (log : RunLog) (clean : Bool)
    (s : Chronicle) : Prop where
  going : Going o s₀ s
  idle : s.Idle
  saved : s.saved.head? = some log
  /-- What is still to be undone is left over. -/
  left : ∀ m ∈ todo, m ∈ leftover log
  distinct : (todo.map (·.step)).Nodup
  /-- Nothing else is if all went well. -/
  all : clean = true → leftover log = todo.reverse

/-- **Saving a log that goes on from the last one.** -/
theorem Going.saving {log' : RunLog} {post : Chronicle → Prop} (h : Going o s₀ s)
    (hlog : s.saved.head? = some log) (hcoherent : log'.Coherent) (hcontinues : log.Continues log')
    (hpost : post (s.save log')) :
    Saving Chronicle.setting (Going o s₀) (fun _ _ => True) post log' s := by
  refine h.ahead.saving hcoherent (fun t ht hsaved => ⟨ht, ?_⟩) hpost
  obtain hsaved | hsaved := hsaved
  · exact hsaved ▸ h.appended
  · exact h.appended.tail ⟨log, log', hlog, hcontinues, hsaved⟩

/-- **One change of those that are left over is undone**, or could not be. -/
theorem Undoing.next (h : Undoing o s₀ (m :: todo) log clean s) {result : StepResult}
    (hresult : result = .rolledBack ∨ ∃ f, result = .rollbackFailed f) (now : String)
    (ht : Going o s₀ t) (hsaved : t.saved = s.saved) (hrefused : t.refused = false) :
    Saving Chronicle.setting (Going o s₀) (fun _ _ => True)
      (Undoing o s₀ todo (log.push ⟨m.step, result, m.action, now⟩)
        (clean && result = .rolledBack))
      (log.push ⟨m.step, result, m.action, now⟩) t := by
  have hlog : t.saved.head? = some log := by rw [hsaved]; exact h.saved
  have hcoherent : log.Coherent := h.going.ahead.head h.saved
  have hm : m ∈ leftover log := h.left m List.mem_cons_self
  obtain ⟨hnew, hdistinct⟩ := List.nodup_cons.1 h.distinct
  have hne : ∀ m' ∈ todo, m'.step ≠ m.step := fun m' hm' heq =>
    hnew (List.mem_map.2 ⟨m', hm', heq⟩)
  -- the steps that are still to come are left over as before
  have hleft : ∀ m' ∈ todo, m' ∈ leftover (log.push ⟨m.step, result, m.action, now⟩) := fun m' hm' =>
    RunLog.Coherent.mem_leftover_push (h.left m' (List.mem_cons_of_mem _ hm')) (hne m' hm')
  have hpush : (log.push ⟨m.step, result, m.action, now⟩).Coherent := by
    obtain rfl | ⟨f, rfl⟩ := hresult
    · exact (hcoherent.rolledBack m.step m.action now).1
    · exact hcoherent.rollbackFailed hm f m.action now
  have hgoing : Going o s₀ (t.save (log.push ⟨m.step, result, m.action, now⟩)) :=
    ⟨ht.ahead.save hpush, ht.appended.tail ⟨log, _, hlog, log.continues_push _, rfl⟩⟩
  refine ht.saving hlog hpush (log.continues_push _)
    ⟨hgoing, .save hrefused _, rfl, hleft, hdistinct, fun hclean => ?_⟩
  rw [Bool.and_eq_true, decide_eq_true_eq] at hclean
  obtain ⟨hclean, rfl⟩ := hclean
  rw [(hcoherent.rolledBack m.step m.action now).2, h.all hclean, List.reverse_cons, List.filter_append,
    List.filter_eq_self.2 (by simpa using hne), List.filter_cons_of_neg (by simp), List.filter_nil,
    List.append_nil]

/-- **Undoing what is left over** stays ahead and only appends to the log, and what was undone
is left over no longer. -/
theorem ensures_unwound (hahead : Ahead o s) (hidle : s.Idle) (hlog : s.saved.head? = some log) :
    (o.unwindAll log (leftover log).reverse).run.Ensures Chronicle.setting (Going o s)
      (onResult (fun r t => Undoing o s [] r.1 r.2 t) fun _ _ => True) s := by
  have hcoherent : log.Coherent := hahead.head hlog
  have hstart : Undoing o s (leftover log).reverse log true s := by
    refine ⟨⟨hahead, .refl⟩, hidle, hlog, fun m hm => List.mem_reverse.1 hm, ?_, fun _ => ?_⟩
    · rw [List.map_reverse]
      exact List.nodup_reverse.2 hcoherent.distinct
    · rw [List.reverse_reverse]
  refine ensures_unwindAll Chronicle.quiet_setting (fun _ _ _ _ h => h.going) ?_ hstart
  rintro ⟨step, action?, change⟩ todo log clean t h
  have hm : (⟨step, action?, change⟩ : Made) ∈ leftover log := h.left _ List.mem_cons_self
  obtain ⟨action, haction⟩ := (h.going.ahead.head h.saved).known _ hm
  obtain rfl : action? = some action := haction
  -- the log on disk says what is being undone
  have hgoing : ∀ u, Chronicle.Called (action.rollback o.retry change) t u → Going o s u := by
    intro u hu
    refine ⟨h.going.ahead.called h.idle h.saved (fun calls hcalls => ?_) hu, ?_⟩
    · exact Names.of_mem_leftover hm rfl hcalls
    · rw [hu.saved]; exact h.going.appended
  have hcalls := Chronicle.ensures_called ((action.only_rollback o.retry change).mono
    fun _ => Effect.serves.touchesHost) t
  refine ensures_bind.2 (hcalls.mono (fun _ _ _ _ _ hx => hx) hgoing ?_)
  rintro (e | _) u hu -
  · exact ⟨hgoing u hu, fun now => h.next (.inr ⟨_, rfl⟩) now (hgoing u hu) hu.saved
      (hu.refused.trans h.idle.2)⟩
  · exact ⟨hgoing u hu, fun now => h.next (.inl rfl) now (hgoing u hu) hu.saved
      (hu.refused.trans h.idle.2)⟩

/-- Nothing is left over in the log on disk if the report says that all went well. -/
def Cleared (report : RunReport) (s : Chronicle) : Prop :=
  report.rollbackClean = true → ∀ log, s.saved.head? = some log → leftover log = []

/-- **Rolling back a log** stays ahead and only appends to it. -/
theorem ensures_resumed (hahead : Ahead o s) (hidle : s.Idle) (hlog : s.saved.head? = some log) :
    (o.rollbackLog log).run.Ensures Chronicle.setting (Going o s)
      (onResult Cleared fun _ _ => True) s := by
  refine ensures_rollbackLog Chronicle.quiet_setting ⟨hahead, .refl⟩ (fun hnothing _ log' hlog' => ?_)
    fun _ => (ensures_unwound hahead hidle hlog).imp ?_
  · obtain rfl : log = log' := Option.some.inj (hlog.symm.trans hlog')
    exact hnothing
  · rintro (e | ⟨unwound, clean⟩) t - h
    · exact h
    · intro now
      have hcoherent : unwound.Coherent := h.going.ahead.head h.saved
      refine h.going.saving h.saved (hcoherent.congr rfl rfl) (unwound.continues_closing _ now)
        fun hclean log' hlog' => ?_
      obtain rfl : closing unwound _ now = log' := Option.some.inj hlog'
      exact h.all hclean

/-! ### One invocation after the other -/

/-- What one invocation makes of the disk that rolls back the run, stopped anywhere. -/
def RollsBack (s t : Chronicle) : Prop :=
  ∃ (o : Orchestrator) (id : Option String) (p : Effects (Except RunError RunReport)),
    (o.rollbackRun id).run.Reaches Chronicle.setting s.resumed p t

/-- **Rolling back a run** stays ahead and only appends to its log. -/
theorem ensures_rolledBack (h : ∀ log ∈ s.saved, log.Coherent) :
    (o.rollbackRun id).run.Ensures Chronicle.setting (Going o s)
      (onResult Cleared fun _ _ => True) s.resumed := by
  have hahead : Ahead o s.resumed := .of_since_nil h rfl
  refine ensures_rollback Chronicle.quiet_setting ⟨hahead, .refl⟩ (fun _ => trivial) fun log hlog => ?_
  exact (ensures_resumed hahead ⟨rfl, rfl⟩ (Chronicle.head?_of_loads hlog)).mono (fun _ _ _ _ _ hx => hx)
    (fun _ ht => ⟨ht.ahead, ht.appended⟩) fun _ _ _ hr => hr

theorem RollsBack.going (h : ∀ log ∈ s.saved, log.Coherent) (hback : RollsBack s t) :
    (∀ log ∈ t.saved, log.Coherent) ∧ ReflTransGen Appends s.saved t.saved := by
  obtain ⟨o, id, p, hr⟩ := hback
  have hgoing := ((ensures_rolledBack h).sound hr).now
  exact ⟨hgoing.ahead.coherent, hgoing.appended⟩

/-- **However often a run is rolled back**, its log is only appended to and stays coherent. -/
theorem rollsBack_going (h : ∀ log ∈ s.saved, log.Coherent) (hback : ReflTransGen RollsBack s t) :
    (∀ log ∈ t.saved, log.Coherent) ∧ ReflTransGen Appends s.saved t.saved := by
  -- the induction is on the invocations, last one first
  induction hback with
  | refl => exact ⟨h, .refl⟩
  | tail _ hlast ih =>
    obtain ⟨hcoherent, happended⟩ := ih
    obtain ⟨hcoherent', happended'⟩ := hlast.going hcoherent
    exact ⟨hcoherent', happended.trans happended'⟩

end Orchestrator

end Provision
