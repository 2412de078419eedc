import Provision.Proofs.Run.Account
import Provision.Proofs.Run.Coherent

/-!
# What an invocation has done since it saved a log

A run is carried out by one invocation and rolled back by others. Each of them finds on disk
what was put there last, may fail to save a log at any time, and may be stopped anywhere.

* `Chronicle`: what is told of an invocation, with the calls since a log was last to be saved.
* `Chronicle.setting`: every request may get any reply, but a log that is found is the last
  one on disk.
* `Chronicle.storing`: the same where nothing is wrong with the state directory.
* `Names`: the calls made since are those of a step that the log names.
* `Ahead`: no call without a log on disk that names the step it is made for, and none once a
  log could not be saved.
* `Ahead.called`, `Ahead.saving`: what keeps an invocation ahead.
-/

namespace Provision

open Script Orchestrator

/-- What can be told of an invocation from outside, with what it did since it last saved. -/
structure Chronicle extends Account where
  /-- The calls to the host since a log was last to be saved, in order. -/
  since : List HostCall := []
  /-- A log could not be saved. -/
  refused : Bool := false

namespace Chronicle

/-- What a request and its reply add. A log whose saving failed may be on disk all the same;
a log that is found is the one that was put on disk last. -/
def Follows (s : Chronicle) : (e : Effect) → e.Reply → Chronicle → Prop
  | .host c, _, s' => s' = { s with calls := s.calls ++ [c], since := s.since ++ [c] }
  | .save log, .ok (), s' => s' = { s with saved := log :: s.saved, since := [] }
  | .save log, .error _, s' => ∃ saved, (saved = s.saved ∨ saved = log :: s.saved) ∧
    s' = { s with saved, since := [], refused := true }
  | .load _, x, s' | .latest, x, s' => s' = s ∧ ∀ log, x = .ok log → s.saved.head? = some log
  | .resolve _, _, s' | .pause _, _, s' | .cancelled, _, s' | .now, _, s' | .process, _, s'
  | .lock, _, s' | .unlock, _, s' | .prepare, _, s' => s' = s

/-- The setting in which every request may get any reply, and a log that is found is the one
that was put on disk last. -/
def setting : Setting Effect.interface Chronicle := fun s e x s' => s.Follows e x s'

/-- What the state directory does when nothing is wrong with it: the lock is free, logs are
saved, and the last one is found. -/
def Stores (s : Chronicle) : (e : Effect) → e.Reply → Prop
  | .lock, x => x = .ok true
  | .save _, x => x.isOk = true
  | .load id, x => ∀ log, s.saved.head? = some log → log.runId = id → x = .ok log
  | .latest, x => ∀ log, s.saved.head? = some log → x = .ok log
  | .host _, _ | .resolve _, _ | .pause _, _ | .cancelled, _ | .now, _ | .process, _ | .unlock, _
  | .prepare, _ => True

/-- The setting in which every call to the host may get any reply, and nothing is wrong with the
state directory. -/
def storing : Setting Effect.interface Chronicle := fun s e x s' => s.Follows e x s' ∧ s.Stores e x

/-- The chronicle with one more log on disk. -/
def save (s : Chronicle) (log : RunLog) : Chronicle := { s with saved := log :: s.saved, since := [] }

/-- Nothing was done since a log was saved. -/
def Idle (s : Chronicle) : Prop := s.since = [] ∧ s.refused = false

/-- The chronicle of a new invocation, which has done nothing yet. -/
def resumed (s : Chronicle) : Chronicle := { s with since := [], refused := false }

theorem Idle.save {s : Chronicle} (h : s.refused = false) (log : RunLog) : (s.save log).Idle := ⟨rfl, h⟩

theorem quiet_setting : Quiet setting := by
  intro s e x s' he hx
  cases e with
  | load _ | latest => exact hx.1
  | host _ | save _ => cases he
  | _ => exact hx

theorem quiet_storing : Quiet storing := fun s e x s' he hx => quiet_setting s e x s' he hx.1

theorem saving_storing (log : RunLog) (s : Chronicle) :
    Saving storing (fun _ => True) (fun _ _ => False) (fun _ => True) log s := by
  intro x s' hx
  cases x with
  | ok _ => exact ⟨trivial, trivial⟩
  | error e => cases hx.2

/-- What is told of the logs on disk and of the calls is told of both. -/
theorem account_of_setting {s s' : Chronicle} {e : Effect} {x : e.Reply} (hx : setting s e x s') :
    Account.setting s.toAccount e x s'.toAccount := by
  cases e with
  | host c =>
    obtain rfl : s' = { s with calls := s.calls ++ [c], since := s.since ++ [c] } := hx
    rfl
  | save log =>
    cases x with
    | ok _ =>
      obtain rfl : s' = s.save log := hx
      rfl
    | error e =>
      obtain ⟨saved, rfl | rfl, rfl⟩ := hx
      · exact .inl rfl
      · exact .inr rfl
  | load _ | latest => exact congrArg toAccount hx.1
  | _ => exact congrArg toAccount hx

theorem head?_of_loads {s : Chronicle} {log : RunLog} : ∀ {id : Option String},
    Loads setting s id (.ok log) → s.saved.head? = some log
  | some _, h => h.2 log rfl
  | none, h => h.2 log rfl

/-- What is ensured of the account of an invocation is ensured of its chronicle. -/
theorem ensures_of_account {α : Type} {always : Account → Prop} {post : α → Account → Prop}
    {p : Effects α} {s : Chronicle} (h : p.Ensures Account.setting always post s.toAccount) :
    p.Ensures setting (fun t => always t.toAccount) (fun a t => post a t.toAccount) s :=
  (Ensures.comap h (only_any p) trivial fun _ _ _ _ _ _ hx => ⟨account_of_setting hx, trivial⟩).mono
    (fun _ _ _ _ _ hx => hx) (fun _ ht => ht.2) fun _ _ _ hr => hr

/-- A world that saves each log, finds the last one on disk, and always gives the same reply to
any other request, and its chronicle. -/
def replay (reply : (e : Effect) → e.Reply) : (e : Effect) → Chronicle → e.Reply × Chronicle
  | .host c, s => (reply (.host c), { s with calls := s.calls ++ [c], since := s.since ++ [c] })
  | .save log, s => (.ok (), s.save log)
  | .load id, s => (s.saved.head?.elim (.error (.runNotFound id)) .ok, s)
  | .latest, s => (s.saved.head?.elim (.error (.noRuns "")) .ok, s)
  | e, s => (reply e, s)

theorem setting_replay (reply : (e : Effect) → e.Reply) (s : Chronicle) (e : Effect) :
    setting s e (replay reply e s).1 (replay reply e s).2 := by
  -- a log that is found is the last one
  have hfound : ∀ (missing : StoreError) log,
      s.saved.head?.elim (.error missing) .ok = (.ok log : Except StoreError RunLog) →
        s.saved.head? = some log := by
    intro missing log h
    cases hlast : s.saved.head? with
    | none => rw [hlast] at h; cases h
    | some last =>
      rw [hlast] at h
      exact congrArg some (Except.ok.inj h)
  cases e with
  | load id => exact ⟨rfl, hfound _⟩
  | latest => exact ⟨rfl, hfound _⟩
  | _ => rfl

/-- What is left of a script in such a world after some requests. -/
def walk {α : Type} (reply : (e : Effect) → e.Reply) (n : Nat) (p : Effects α) (s : Chronicle) :
    Option (Effects α × Chronicle) := Script.walk (replay reply) (fun _ _ => true) n p s

theorem reaches_of_walk {α : Type} {reply : (e : Effect) → e.Reply} {n : Nat} {p q : Effects α}
    {s t : Chronicle} (h : walk reply n p s = some (q, t)) : p.Reaches setting s q t :=
  Reaches.of_walk (fun s e _ => setting_replay reply s e) h

/-! ### Calls -/

/-- All that was done is to make the calls that a script makes first. -/
structure Called {α : Type} (p : Effects α) (s t : Chronicle) : Prop where
  saved : t.saved = s.saved
  refused : t.refused = s.refused
  since : ∃ calls, t.since = s.since ++ calls ∧ Begins p calls

/-- A script that leaves the disk alone does nothing but make its calls. -/
theorem ensures_called {α : Type} {p : Effects α} (hp : p.Only (Effect.touchesHost ·)) (s : Chronicle) :
    p.Ensures setting (Called p s) (fun _ _ => True) s := by
  -- the calls since a log was saved grow as all the calls do
  let keeps (t : Chronicle) : Prop :=
    t.refused = s.refused ∧ ∃ calls, t.calls = s.calls ++ calls ∧ t.since = s.since ++ calls
  have hkeeps : keeps s := ⟨rfl, [], by simp, by simp⟩
  have hstep : ∀ t (e : Effect) x t', e.touchesHost = true → keeps t → setting t e x t' →
      Account.setting t.toAccount e x t'.toAccount ∧ keeps t' := by
    rintro t e x t' he ⟨hrefused, calls, hall, hsince⟩ hx
    refine ⟨account_of_setting hx, ?_⟩
    cases e with
    | host c =>
      obtain rfl : t' = { t with calls := t.calls ++ [c], since := t.since ++ [c] } := hx
      exact ⟨hrefused, calls ++ [c], by simp [hall], by simp [hsince]⟩
    | resolve _ | pause _ =>
      obtain rfl : t' = t := hx
      exact ⟨hrefused, calls, hall, hsince⟩
    | _ => cases he
  refine (Ensures.comap (ensures_calls hp s.toAccount) hp hkeeps hstep).mono
    (fun _ _ _ _ _ hx => hx) ?_ fun _ _ _ _ => trivial
  rintro t ⟨⟨hrefused, calls, hall, hsince⟩, hsaved, calls', hall', hbegins⟩
  obtain rfl : calls = calls' := List.append_cancel_left (hall.symm.trans hall')
  exact ⟨hsaved, hrefused, calls, hsince, hbegins⟩

end Chronicle

/-! ### Steps that a log names -/

/-- The calls are those of a step that the log names. -/
inductive Names (o : Orchestrator) (log : RunLog) (calls : List HostCall) : Prop
  /-- The step in flight is being applied. -/
  | applying {f : InFlight} : log.inFlight = some f → Begins (f.action.apply o.retry) calls →
      Names o log calls
  /-- What a step was recorded to have changed, and is outstanding, is being undone. -/
  | undoing {e : Outstanding} {action : StepAction} : e ∈ log.outstanding → e.action = some action →
      Begins (action.rollback o.retry e.change) calls → Names o log calls
  /-- What the step in flight is taken to have changed is being undone. -/
  | assuming {f : InFlight} : log.inFlight = some f →
      Begins (f.action.rollback o.retry f.action.assumedChange) calls → Names o log calls

variable {o : Orchestrator} {log log' : RunLog} {s t : Chronicle} {m : Made} {action : StepAction}
  {calls : List HostCall}

/-- What is being undone is named if it is left to undo. -/
theorem Names.of_mem_leftover (hm : m ∈ leftover log) (haction : m.action = some action)
    (h : Begins (action.rollback o.retry m.change) calls) : Names o log calls := by
  obtain hm | ⟨f, hf, rfl⟩ := mem_leftover.1 hm
  · obtain ⟨e, he, rfl⟩ := List.mem_map.1 hm
    exact .undoing he haction h
  · obtain rfl := Option.some.inj haction
    exact .assuming hf h

/-- No call was made without a log on disk that names the step it was made for, and none
once a log could not be saved. All logs on disk hold together. -/
structure Ahead (o : Orchestrator) (s : Chronicle) : Prop where
  coherent : ∀ log ∈ s.saved, log.Coherent
  named : s.since ≠ [] → s.refused = false ∧ ∃ log, s.saved.head? = some log ∧ Names o log s.since

namespace Ahead

theorem head (h : Ahead o s) (hlog : s.saved.head? = some log) : log.Coherent :=
  h.coherent log (List.mem_of_mem_head? hlog)

/-- **Calls for a step that the log on disk names.** -/
theorem called {α : Type} {p : Effects α} (h : Ahead o s) (hidle : s.Idle)
    (hlog : s.saved.head? = some log) (hnames : ∀ calls, Begins p calls → Names o log calls)
    (hcalled : Chronicle.Called p s t) : Ahead o t where
  coherent := hcalled.saved ▸ h.coherent
  named _ := by
    obtain ⟨calls, hsince, hbegins⟩ := hcalled.since
    rw [hidle.1, List.nil_append] at hsince
    refine ⟨hcalled.refused.trans hidle.2, log, ?_, ?_⟩
    · rw [hcalled.saved]; exact hlog
    · rw [hsince]; exact hnames calls hbegins

/-- What was saved holds together, so nothing is to be shown but that. -/
theorem of_since_nil (h : ∀ log ∈ s.saved, log.Coherent) (hsince : s.since = []) : Ahead o s :=
  ⟨h, fun hne => absurd hsince hne⟩

theorem save (h : Ahead o s) (hlog : log.Coherent) : Ahead o (s.save log) := by
  refine of_since_nil (fun log' hlog' => ?_) rfl
  rcases List.mem_cons.1 hlog' with rfl | hlog'
  · exact hlog
  · exact h.coherent log' hlog'

/-- What is to hold after saving a log that holds together. -/
theorem saving {always post : Chronicle → Prop} (h : Ahead o s) (hlog : log.Coherent)
    (hkept : ∀ t, Ahead o t → t.saved = s.saved ∨ t.saved = log :: s.saved → always t)
    (hpost : post (s.save log)) : Saving Chronicle.setting always (fun _ _ => True) post log s := by
  have hsave : Ahead o (s.save log) := h.save hlog
  intro x t hx
  cases x with
  | ok _ =>
    obtain rfl : t = s.save log := hx
    exact ⟨hkept _ hsave (.inr rfl), hpost⟩
  | error e =>
    obtain ⟨saved, rfl | rfl, rfl⟩ := hx
    · exact ⟨hkept _ (of_since_nil h.coherent rfl) (.inl rfl), trivial⟩
    · exact ⟨hkept _ (of_since_nil hsave.coherent rfl) (.inr rfl), trivial⟩

/-- **At each call to the host the log on disk names the step it is made for**, and no log
could not be saved before. -/
theorem of_reaches {α : Type} {p : Effects α} {c : HostCall} {k : c.Reply → Effects α} {always : Chronicle → Prop}
    {post : α → Chronicle → Prop} (h : p.Ensures Chronicle.setting always post s)
    (hahead : ∀ t, always t → Ahead o t)
    (hr : p.Reaches Chronicle.setting s (.ask (.host c) k) t) :
    t.refused = false ∧ ∃ log, t.saved.head? = some log ∧ Names o log (t.since ++ [c]) := by
  -- whatever the reply, the call is one of those that were made after it
  have hstep : Chronicle.setting t (.host c) (.error (.backend ""))
      { t with calls := t.calls ++ [c], since := t.since ++ [c] } := rfl
  have hnext := hahead _ ((h.sound hr).2 _ _ hstep).now
  exact hnext.named (by simp)

end Ahead

end Provision
