import Provision.Proofs.Run.WriteAhead

/-!
# Rolling back again and again

A run is rolled back from its log by one invocation after the other. Each of them may fail to
undo some of the steps, and may be stopped anywhere.

* `Pending`, `Invoked`: what an invocation has come to wherever it is stopped, and where it
  returned.
* `rollbacks_append`: **each invocation undoes what is left over, last step first, and only
  appends to the log; no step is undone twice, and none is tried once an invocation has
  reported that all went well**.
* `stuck_retried`: a step that could not be undone is tried again by the next invocation if it
  was recorded as applied.
* `stuck_forgotten`: if it was in flight it is not.
-/

namespace Provision.Orchestrator

open Script Relation

variable {o : Orchestrator} {registry : Registry} {id : Option String} {log log' : RunLog}
  {s t u : Chronicle} {todo : List Made} {e : LogEntry}

/-- What an invocation comes to that found `log` on disk and returned. -/
inductive Invoked (o : Orchestrator) (log : RunLog) (s t : Chronicle) :
    Except RunError RunReport → Prop
  /-- All that was left over was tried, last step first: there is one entry more for each. -/
  | tried {log' : RunLog} {back : List LogEntry} {undoing : List HostCall} :
      t.saved.head? = some log' → log'.entries = log.entries ++ back →
      Unwound o (leftover log).reverse back undoing → t.calls = s.calls ++ undoing →
      Invoked o log s t (.ok (.ofLog log' (!back.any LogEntry.isStuck)))
  /-- A log could not be saved. -/
  | refused {error : RunError} : t.refused = true → Invoked o log s t (.error error)
  /-- Nothing was done. -/
  | nothing {error : RunError} : t = s → Invoked o log s t (.error error)

/-- Unwinding stops early only if a log could not be saved. -/
theorem ensures_unstopped {w : Setting Effect.interface Chronicle} (hw : Quiet w)
    {refused : RunError → Chronicle → Prop}
    (hsaving : ∀ log s, Saving w (fun _ => True) refused (fun _ => True) log s) (log : RunLog)
    (s : Chronicle) :
    (o.unwindAll log todo).run.Ensures w (fun _ => True) (onResult (fun _ _ => True) refused) s := by
  -- nothing is to be kept but that each log was saved
  let inv (_ : List Made) (_ : RunLog) (_ : Bool) (_ : Chronicle) : Prop := True
  have hstart : inv todo log true s := trivial
  refine ensures_unwindAll hw (fun _ _ _ _ _ => trivial) ?_ hstart
  intro m todo log clean s _
  exact ((returns_any (o.undo m)).ensures s).imp fun _ t _ _ now => hsaving _ t

/-- An invocation says that a log could not be saved. -/
theorem saving_refused (log : RunLog) (s : Chronicle) :
    Saving Chronicle.setting (fun _ => True) (fun _ t => t.refused = true) (fun _ => True) log s := by
  intro x t hx
  refine ⟨trivial, ?_⟩
  cases x with
  | ok _ => trivial
  | error _ =>
    obtain ⟨saved, -, rfl⟩ := hx
    rfl

/-- **An invocation returns a report** whatever the host does, if it finds the log on disk, and
nothing is wrong with the state directory. -/
theorem ensures_returns (hlog : s.saved.head? = some log)
    (hid : ∀ name, id = some name → log.runId = name) :
    (o.rollbackRun id).run.Ensures Chronicle.storing (fun _ => True)
      (onResult (fun _ _ => True) fun _ _ => False) s := by
  have hloads : ∀ x, Loads Chronicle.storing s id x → x = .ok log := by
    cases id with
    | none => exact fun x hx => hx.2 log hlog
    | some name => exact fun x hx => hx.2 log hlog (hid name rfl)
  have hlock : ∀ (x : Except IoError Bool) t, Chronicle.storing s .lock x t → x = .ok true :=
    fun _ _ hx => hx.2
  refine ensures_rollback_free Chronicle.quiet_storing trivial hlock hloads ?_
  refine ensures_rollbackLog Chronicle.quiet_storing trivial (fun _ => trivial) fun _ => ?_
  refine (ensures_unstopped Chronicle.quiet_storing Chronicle.saving_storing log s).imp ?_
  rintro (error | r) t - hr
  · exact hr
  · exact fun now => Chronicle.saving_storing _ t

/-- The log on disk is one that goes on from `log`, with entries of the first of the steps that
were left over in it, last step first. -/
def Pending (o : Orchestrator) (log : RunLog) (t : Chronicle) : Prop :=
  Partway o log (leftover log).reverse t.toAccount

theorem Pending.start (hlog : s.saved.head? = some log) : Pending o log s :=
  ⟨log, [], [], [], hlog, (List.append_nil _).symm, List.nil_prefix, .start⟩

/-- **Rolling back a log tries all that is left over**, unless a log cannot be saved. -/
theorem ensures_tried (hcoherent : log.Coherent) (hlog : s.saved.head? = some log) :
    (o.rollbackLog log).run.Ensures Chronicle.setting (Pending o log)
      (onResult (fun report t => Invoked o log s t (.ok report))
        fun error t => Invoked o log s t (.error error)) s := by
  have hstart : Pending o log s := .start hlog
  refine ensures_rollbackLog Chronicle.quiet_setting hstart (fun hnothing => ?_) fun _ => ?_
  · have hentries : log.entries = log.entries ++ [] := (List.append_nil _).symm
    have hunwound : Unwound o (leftover log).reverse [] [] := by
      rw [hnothing]
      exact .start
    exact .tried hlog hentries hunwound (List.append_nil _).symm
  · have haction : ∀ m ∈ (leftover log).reverse, ∃ action, m.action = some action := fun m hm =>
      hcoherent.known m (List.mem_reverse.1 hm)
    have htold := Chronicle.ensures_of_account
      (ensures_unwinding (o := o) (s := s.toAccount) haction hlog)
    have hstops : (o.unwindAll log (leftover log).reverse).run.Ensures Chronicle.setting (fun _ => True)
        (onResult (fun _ _ => True) fun _ t => t.refused = true) s :=
      ensures_unstopped Chronicle.quiet_setting saving_refused log s
    refine (htold.and hstops).mono (fun _ _ _ _ _ hx => hx) (fun _ ht => ht.1) ?_
    rintro (error | ⟨unwound, clean⟩) t ⟨hpending, -⟩ ⟨hr, hrefused⟩
    · exact .refused hrefused
    · obtain ⟨back, undoing, hback, hentries, -, -, -, hcalls, rfl⟩ := hr
      -- the log that is closed has the same entries
      have hclosed : ∀ u now, u.saved = closing unwound (rolledBackStatus log.status) now :: t.saved →
          Pending o log u := fun u now hu =>
        ⟨closing unwound (rolledBackStatus log.status) now, back, _, undoing, by rw [hu]; rfl, hentries,
          List.prefix_rfl, hback⟩
      intro now x u hx
      cases x with
      | ok _ =>
        obtain rfl : u = t.save (closing unwound (rolledBackStatus log.status) now) := hx
        exact ⟨hclosed _ now rfl, .tried rfl hentries hback hcalls⟩
      | error _ =>
        obtain ⟨saved, rfl | rfl, rfl⟩ := hx
        · exact ⟨hpending, .refused rfl⟩
        · exact ⟨hclosed _ now rfl, .refused rfl⟩

/-- **An invocation that returns has tried all that was left over**, unless a log could not be
saved, or nothing was done at all. -/
theorem ensures_invoked (hcoherent : log.Coherent) (hlog : s.saved.head? = some log) :
    (o.rollbackRun id).run.Ensures Chronicle.setting (Pending o log)
      (fun r t => Invoked o log s t r) s := by
  have hstart : Pending o log s := .start hlog
  have hall : (o.rollbackRun id).run.Ensures Chronicle.setting (Pending o log)
      (onResult (fun report t => Invoked o log s t (.ok report))
        fun error t => Invoked o log s t (.error error)) s := by
    refine ensures_rollback Chronicle.quiet_setting hstart (fun _ => .nothing rfl) fun log' hloads => ?_
    obtain rfl : log = log' := Option.some.inj (hlog.symm.trans (Chronicle.head?_of_loads hloads))
    exact ensures_tried hcoherent hlog
  refine hall.imp ?_
  rintro (error | report) t - hr
  · exact hr
  · exact hr

/-- Nothing is done if nothing is left over. -/
theorem RollsBack.nothing (hlog : s.saved.head? = some log) (hleft : leftover log = [])
    (h : RollsBack s t) : t.saved = s.saved ∧ t.calls = s.calls := by
  obtain ⟨o, id, p, hr⟩ := h
  have hall : (o.rollbackRun id).run.Ensures Chronicle.setting
      (fun t => t.saved = s.saved ∧ t.calls = s.calls) (onResult (fun _ _ => True) fun _ _ => True)
      s.resumed := by
    refine ensures_rollback Chronicle.quiet_setting ⟨rfl, rfl⟩ (fun _ => trivial) fun log' hloads => ?_
    have hlog' : s.resumed.saved.head? = some log' := Chronicle.head?_of_loads hloads
    obtain rfl : log = log' := Option.some.inj (hlog.symm.trans hlog')
    exact ensures_rollbackLog Chronicle.quiet_setting ⟨rfl, rfl⟩ (fun _ => trivial) (absurd hleft)
  exact (hall.sound hr).now

/-- Nothing is done any more once nothing is left over. -/
theorem rollsBack_nothing (hlog : s.saved.head? = some log) (hleft : leftover log = [])
    (h : ReflTransGen RollsBack s t) : t.saved = s.saved ∧ t.calls = s.calls := by
  induction h with
  | refl => exact ⟨rfl, rfl⟩
  | tail _ hlast ih =>
    obtain ⟨hsaved, hcalls⟩ := ih
    obtain ⟨hsaved', hcalls'⟩ := hlast.nothing (hsaved ▸ hlog) hleft
    exact ⟨hsaved'.trans hsaved, hcalls'.trans hcalls⟩

/-- The last log on disk goes on from each one before. -/
theorem continues_of_appends {saved saved' : List RunLog} (hlog : saved.head? = some log)
    (h : ReflTransGen Appends saved saved') : ∃ log', saved'.head? = some log' ∧ log.Continues log' := by
  induction h with
  | refl => exact ⟨log, hlog, rfl, rfl, rfl, rfl, List.prefix_rfl⟩
  | tail _ hlast ih =>
    obtain ⟨log₁, hlog₁, hcontinues⟩ := ih
    obtain ⟨log₂, log₃, hlog₂, hcontinues', rfl⟩ := hlast
    obtain rfl : log₁ = log₂ := Option.some.inj (hlog₁.symm.trans hlog₂)
    exact ⟨log₃, rfl, hcontinues.trans hcontinues'⟩

/-- **Each invocation undoes what is left over, last step first**, with one entry for each
step, and whatever fails keeps none from being tried: it returns a report unless it cannot find
or save a log. The log is only appended to. No step is left over twice, and none that was
undone. Once an invocation has reported that all went well, no other one calls the host or
changes the log. Stopped anywhere, an invocation has tried the first of what was left over. -/
theorem rollbacks_append (hb : registry.Built) (hs : History registry s)
    (hlog : s.saved.head? = some log) :
    (∀ t, ReflTransGen RollsBack s t → ∃ log', t.saved.head? = some log' ∧ log.Continues log') ∧
    ((leftover log).map (·.step)).Nodup ∧
    (∀ e ∈ log.entries, e.result = .rolledBack → ∀ m ∈ leftover log, m.step ≠ e.step) ∧
    (∀ o id p t, (o.rollbackRun id).run.Reaches Chronicle.setting s.resumed p t → Pending o log t) ∧
    (∀ o id r t, (o.rollbackRun id).run.Reaches Chronicle.setting s.resumed (.done r) t →
      Invoked o log s.resumed t r ∧
      ∀ report, r = .ok report → report.rollbackClean = true →
        ∀ u, ReflTransGen RollsBack t u → u.saved = t.saved ∧ u.calls = t.calls) ∧
    ∀ (o : Orchestrator) (id : Option String) r t, (∀ name, id = some name → log.runId = name) →
      (o.rollbackRun id).run.Reaches Chronicle.storing s.resumed (.done r) t → ∃ report, r = .ok report := by
  have hcoherent : ∀ log ∈ s.saved, log.Coherent := hs.coherent hb
  have hhead : log.Coherent := hcoherent log (List.mem_of_mem_head? hlog)
  refine ⟨fun t ht => ?_, hhead.distinct, hhead.gone, fun o id p t hr => ?_,
    fun o id r t hr => ⟨?_, ?_⟩, fun o id r t hid hr => ?_⟩
  · exact continues_of_appends hlog (rollsBack_going hcoherent ht).2
  · exact ((ensures_invoked (s := s.resumed) hhead hlog).sound hr).now
  · exact ((ensures_invoked (s := s.resumed) hhead hlog).sound hr).2
  · rintro report rfl hclean u hu
    obtain ⟨hgoing, hcleared⟩ := (ensures_rolledBack hcoherent).sound hr
    obtain ⟨log', hlog', -⟩ := continues_of_appends hlog hgoing.appended
    exact rollsBack_nothing hlog' (hcleared hclean log' hlog') hu
  · obtain ⟨-, hreturned⟩ := (ensures_returns (s := s.resumed) hlog hid).sound hr
    cases r with
    | error e => exact hreturned.elim
    | ok report => exact ⟨report, rfl⟩

/-- A run and what rolled it back, in worlds that always give the same replies. -/
theorem History.of_walks {o o' : Orchestrator} {skip : List String} {reply reply' : (e : Effect) → e.Reply}
    {m n : Nat} {p q : Effects (Except RunError RunReport)}
    (hrun : Chronicle.walk reply m (o.run registry skip).run {} = some (p, s))
    (hback : Chronicle.walk reply' n (o'.rollbackRun id).run s.resumed = some (q, t)) :
    History registry t :=
  ⟨s, ⟨o, skip, p, Chronicle.reaches_of_walk hrun⟩, .single ⟨o', id, q, Chronicle.reaches_of_walk hback⟩⟩

/-- The replies of the same world but for undoing what was done to a unit, which is refused. -/
def refusingReply (unit : String) : (e : Effect) → e.Reply
  | .host (.undo op name) => if name = unit then .error (.rejected name op.name "UnitMasked") else .ok ()
  | e => maskedReply e

/-- The run is stopped when the second unit is to be started. The first unit cannot be stopped
when it is rolled back, but can when it is rolled back again. -/
theorem rollbacks_append_inTurn : ∃ s log t report u report',
    History inTurn s ∧ s.saved.head? = some log ∧ log.inFlight.isSome ∧
    ((⟨default, .immediate 1⟩ : Orchestrator).rollbackRun none).run.Reaches Chronicle.setting s.resumed
      (.done (.ok report)) t ∧ report.rollbackClean = false ∧
    ((⟨default, .immediate 1⟩ : Orchestrator).rollbackRun none).run.Reaches Chronicle.setting t.resumed
      (.done (.ok report')) u ∧ report'.rollbackClean = true ∧
    (∃ log', u.saved.head? = some log' ∧ log.Continues log') ∧
    ∀ v, ReflTransGen RollsBack u v → v.saved = u.saved ∧ v.calls = u.calls := by
  obtain ⟨p, s, log, t, log', report, u, report', hrun, hlog, hflight, hfirst, hlog', hunclean, hsecond,
      hclean⟩ : ∃ p s log t log' report u report',
      Chronicle.walk maskedReply 18 ((⟨default, .immediate 2⟩ : Orchestrator).run inTurn []).run {} =
        some (p, s) ∧ s.saved.head? = some log ∧ log.inFlight.isSome ∧
      Chronicle.walk (refusingReply "a.service") 20
        ((⟨default, .immediate 1⟩ : Orchestrator).rollbackRun none).run s.resumed =
          some (.done (.ok report), t) ∧ t.saved.head? = some log' ∧ report.rollbackClean = false ∧
      Chronicle.walk maskedReply 20 ((⟨default, .immediate 1⟩ : Orchestrator).rollbackRun none).run t.resumed =
        some (.done (.ok report'), u) ∧ report'.rollbackClean = true :=
    ⟨_, _, _, _, _, _, _, _, rfl, rfl, rfl, rfl, rfl, rfl, rfl, rfl⟩
  have hr := Chronicle.reaches_of_walk hfirst
  have hr' := Chronicle.reaches_of_walk hsecond
  have hs : History inTurn s := ⟨s, ⟨_, _, _, Chronicle.reaches_of_walk hrun⟩, .refl⟩
  have ht : History inTurn t := .of_walks hrun hfirst
  have hback : ReflTransGen RollsBack s u := .tail (.single ⟨_, _, _, hr⟩) ⟨_, _, _, hr'⟩
  obtain ⟨hcontinues, -⟩ := rollbacks_append built_inTurn hs hlog
  obtain ⟨-, -, -, -, hinvoked, -⟩ := rollbacks_append built_inTurn ht hlog'
  exact ⟨s, log, t, report, u, report', hs, hlog, hflight, hr, hunclean, hr', hclean,
    hcontinues u hback, (hinvoked _ _ _ _ hr').2 report' rfl hclean⟩

/-! ### Steps that could not be undone -/

/-- A step of which something is recorded is left over if it was applied and not undone since,
and only then. -/
theorem mem_leftover_iff (h : log.Coherent) (he : e ∈ log.entries)
    (hback : ∀ e' ∈ log.entries, e'.takesBack e.step = false) :
    e.step ∈ (leftover log).map (·.step) ↔ ∃ a ∈ log.entries, a.step = e.step ∧ a.made?.isSome := by
  constructor
  · intro hmem
    obtain ⟨m, hm, hstep⟩ := List.mem_map.1 hmem
    obtain hm | ⟨f, hf, rfl⟩ := mem_leftover.1 hm
    · rw [h.held_eq] at hm
      obtain ⟨a, ha, hmade⟩ := exists_entry_of_mem_standing hm
      exact ⟨a, ha, (step_of_made? hmade).trans hstep, by rw [hmade]; rfl⟩
    · exact absurd hstep.symm (h.fresh f hf e he)
  · rintro ⟨a, ha, hstep, hmade⟩
    obtain ⟨m, hm⟩ := Option.isSome_iff_exists.1 hmade
    have hid : m.step = e.step := (step_of_made? hm).symm.trans hstep
    have hstands : m ∈ standing log.entries := mem_standing ha hm (by rw [hid]; exact hback)
    rw [← h.held_eq] at hstands
    exact List.mem_map.2 ⟨m, mem_leftover.2 (.inl hstands), hid⟩

/-- What an entry of the backward half says. -/
theorem Unwound.result {undone : List Made} {back : List LogEntry} {undoing : List HostCall}
    (h : Unwound o undone back undoing) :
    ∀ e ∈ back, e.result = .rolledBack ∨ e.isStuck = true := by
  induction h with
  | start => simp
  | rolledBack now _ _ ih =>
    intro e he
    rcases List.mem_append.1 he with he | he
    · exact ih e he
    · rw [List.mem_singleton.1 he]; exact .inl rfl
  | stuck now _ _ ih =>
    intro e he
    rcases List.mem_append.1 he with he | he
    · exact ih e he
    · rw [List.mem_singleton.1 he]; exact .inr rfl

/-- **A step that could not be undone is tried again by the next invocation**, unless an
invocation has undone it since, if it was recorded as applied. It is left over if it was
recorded as applied, and only then. -/
theorem stuck_retried (hb : registry.Built) (hs : History registry s)
    (hlog : s.saved.head? = some log) :
    ∀ e ∈ log.entries, e.isStuck = true → (∀ e' ∈ log.entries, e'.takesBack e.step = false) →
      (e.step ∈ (leftover log).map (·.step) ↔ ∃ a ∈ log.entries, a.step = e.step ∧ a.made?.isSome) ∧
      ((∃ a ∈ log.entries, a.step = e.step ∧ a.made?.isSome) →
        ∀ (o : Orchestrator) (id : Option String) (report : RunReport) (t : Chronicle),
        (o.rollbackRun id).run.Reaches Chronicle.setting s.resumed (.done (.ok report)) t →
        ∃ (log' : RunLog) (back : List LogEntry), t.saved.head? = some log' ∧
          log'.entries = log.entries ++ back ∧
          ∃ e' ∈ back, e'.step = e.step ∧ (e'.result = .rolledBack ∨ e'.isStuck = true)) := by
  have hcoherent : log.Coherent := hs.coherent hb log (List.mem_of_mem_head? hlog)
  intro e he _ hback
  have hiff := mem_leftover_iff hcoherent he hback
  refine ⟨hiff, fun happlied o id report t hr => ?_⟩
  obtain ⟨-, hinvoked⟩ := (ensures_invoked (s := s.resumed) hcoherent hlog).sound hr
  cases hinvoked with
  | @tried log' back undoing hlog' hentries hunwound _ =>
    have hmem : e.step ∈ back.map (·.step) := by
      rw [hunwound.map_step, List.map_reverse, List.mem_reverse]
      exact hiff.2 happlied
    obtain ⟨e', he', hstep⟩ := List.mem_map.1 hmem
    exact ⟨log', back, hlog', hentries, e', he', hstep, hunwound.result e' he'⟩

/-- The first unit was started, could not be stopped again, and is tried again. -/
theorem stuck_retried_inTurn : ∃ s log e report t,
    History inTurn s ∧ s.saved.head? = some log ∧ e ∈ log.entries ∧ e.step = "a" ∧ e.isStuck = true ∧
    ((⟨default, .immediate 1⟩ : Orchestrator).rollbackRun none).run.Reaches Chronicle.setting s.resumed
      (.done (.ok report)) t ∧ e.step ∈ (leftover log).map (·.step) ∧
    ∃ log' back, t.saved.head? = some log' ∧ log'.entries = log.entries ++ back ∧
      ∃ e' ∈ back, e'.step = e.step ∧ (e'.result = .rolledBack ∨ e'.isStuck = true) := by
  obtain ⟨p, s₀, report₀, s, log, e, report, t, hrun, hfirst, hlog, he, hstep, hstuck, hback, happlied,
      hsecond⟩ : ∃ p s₀ report₀ s log e report t,
      Chronicle.walk maskedReply 18 ((⟨default, .immediate 2⟩ : Orchestrator).run inTurn []).run {} =
        some (p, s₀) ∧
      Chronicle.walk (refusingReply "a.service") 20
        ((⟨default, .immediate 1⟩ : Orchestrator).rollbackRun none).run s₀.resumed =
          some (.done (.ok report₀), s) ∧
      s.saved.head? = some log ∧ log.entries[2]? = some e ∧ e.step = "a" ∧ e.isStuck = true ∧
      (∀ e' ∈ log.entries, e'.takesBack e.step = false) ∧
      (∃ a ∈ log.entries, a.step = e.step ∧ a.made?.isSome) ∧
      Chronicle.walk maskedReply 20 ((⟨default, .immediate 1⟩ : Orchestrator).rollbackRun none).run s.resumed =
        some (.done (.ok report), t) :=
    ⟨_, _, _, _, _, _, _, _, rfl, rfl, rfl, rfl, rfl, rfl, by decide, by decide, rfl⟩
  have hs : History inTurn s := .of_walks hrun hfirst
  have hr := Chronicle.reaches_of_walk hsecond
  have hmem : e ∈ log.entries := List.mem_of_getElem? he
  obtain ⟨hiff, hretried⟩ := stuck_retried built_inTurn hs hlog e hmem hstuck hback
  exact ⟨s, log, e, report, t, hs, hlog, hmem, hstep, hstuck, hr, hiff.2 happlied,
    hretried happlied _ _ _ _ hr⟩

/-- The run is stopped when the second unit is to be started, and what that may have changed
cannot be undone. The next invocation does not try it again, and reports that all went well. -/
theorem stuck_forgotten : inTurn.Built ∧ ∃ s log e report t,
    History inTurn s ∧ s.saved.head? = some log ∧ e ∈ log.entries ∧ e.step = "b" ∧ e.isStuck = true ∧
    (∀ e' ∈ log.entries, e'.takesBack e.step = false) ∧ e.step ∉ (leftover log).map (·.step) ∧
    ((⟨default, .immediate 1⟩ : Orchestrator).rollbackRun none).run.Reaches Chronicle.setting s.resumed
      (.done (.ok report)) t ∧ t.calls = s.calls ∧ t.saved = s.saved ∧ report.rollbackClean = true := by
  refine ⟨built_inTurn, ?_⟩
  obtain ⟨p, s₀, report₀, s, log, e, report, t, hrun, hfirst, hlog, he, hrest, hsecond, hend⟩ :
      ∃ p s₀ report₀ s log e report t,
      Chronicle.walk maskedReply 18 ((⟨default, .immediate 2⟩ : Orchestrator).run inTurn []).run {} =
        some (p, s₀) ∧
      Chronicle.walk (refusingReply "b.service") 20
        ((⟨default, .immediate 1⟩ : Orchestrator).rollbackRun none).run s₀.resumed =
          some (.done (.ok report₀), s) ∧
      s.saved.head? = some log ∧ log.entries[1]? = some e ∧
      (e.step = "b" ∧ e.isStuck = true ∧ (∀ e' ∈ log.entries, e'.takesBack e.step = false) ∧
        e.step ∉ (leftover log).map (·.step)) ∧
      Chronicle.walk maskedReply 20 ((⟨default, .immediate 1⟩ : Orchestrator).rollbackRun none).run s.resumed =
        some (.done (.ok report), t) ∧
      t.calls = s.calls ∧ t.saved = s.saved ∧ report.rollbackClean = true :=
    ⟨_, _, _, _, _, _, _, _, rfl, rfl, rfl, rfl, ⟨rfl, rfl, by decide, by decide⟩, rfl, rfl, rfl, rfl⟩
  have hs : History inTurn s := .of_walks hrun hfirst
  obtain ⟨hstep, hstuck, hback, hleft⟩ := hrest
  exact ⟨s, log, e, report, t, hs, hlog, List.mem_of_getElem? he, hstep, hstuck, hback, hleft,
    Chronicle.reaches_of_walk hsecond, hend⟩

end Provision.Orchestrator
