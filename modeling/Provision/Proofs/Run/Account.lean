import Provision.Proofs.Action.Requests
import Provision.Proofs.Run.Rules

/-!
# What shows of a run from outside

Whatever the host, the store and the operator do, two things can be told of a
run afterwards: the logs it put on disk, and the calls it made to the host.

* `Account`, `Account.Follows`: what is told, and what each request adds to it.
* `MakesCalls`, `Begins`: the calls a script makes when it ends in some way, and those it makes
  first.
* `ensures_calls`: a script that leaves the disk alone tells of its calls only.
* `Begins.only`: the calls of a script are requests that it can make.
-/

namespace Provision

open Script

/-- What can be told of a run from outside. -/
structure Account where
  /-- The logs that were put on disk, last one first. -/
  saved : List RunLog := []
  /-- The calls to the host, in order. -/
  calls : List HostCall := []

namespace Account

/-- What a request and its reply add. A log whose saving failed may be on disk
all the same. -/
def Follows (s : Account) : (e : Effect) → e.Reply → Account → Prop
  | .host c, _, s' => s' = { s with calls := s.calls ++ [c] }
  | .save log, .ok (), s' => s' = { s with saved := log :: s.saved }
  | .save log, .error _, s' => s' = s ∨ s' = { s with saved := log :: s.saved }
  | .resolve _, _, s' | .pause _, _, s' | .cancelled, _, s' | .now, _, s' | .process, _, s'
  | .lock, _, s' | .unlock, _, s' | .prepare, _, s' | .load _, _, s' | .latest, _, s' => s' = s

/-- The setting in which every request may get any reply. -/
def setting : Setting Effect.interface Account := fun s e x s' => s.Follows e x s'

theorem quiet_setting : Quiet setting := by
  intro s e x s' he hx
  cases e <;> first | exact hx | simp [Effect.isQuiet] at he

/-- A world that always gives the same reply to a request, and its account. -/
def replay (reply : (e : Effect) → e.Reply) (e : Effect) (s : Account) : e.Reply × Account :=
  (reply e, match e with
    | .host c => { s with calls := s.calls ++ [c] }
    | .save log => { s with saved := log :: s.saved }
    | _ => s)

theorem setting_replay (reply : (e : Effect) → e.Reply) (s : Account) (e : Effect) :
    setting s e (replay reply e s).1 (replay reply e s).2 := by
  cases e with
  | save log =>
    show s.Follows (.save log) (reply (.save log)) { s with saved := log :: s.saved }
    cases h : reply (.save log) with
    | ok _ => rfl
    | error e => exact .inr rfl
  | _ => rfl

theorem saving_keeping {always post : Account → Prop} {log : RunLog} {s : Account} (hs : always s)
    (h : always { s with saved := log :: s.saved } ∧ post { s with saved := log :: s.saved }) :
    Saving setting always (fun _ _ => True) post log s := by
  intro x s' hx
  cases x with
  | error e =>
    obtain rfl | rfl : s' = s ∨ s' = { s with saved := log :: s.saved } := hx
    · exact ⟨hs, trivial⟩
    · exact ⟨h.1, trivial⟩
  | ok _ =>
    obtain rfl : s' = { s with saved := log :: s.saved } := hx
    exact h

theorem saving {post : Account → Prop} {log : RunLog} {s : Account}
    (h : post { s with saved := log :: s.saved }) :
    Saving setting (fun _ => True) (fun _ _ => True) post log s := saving_keeping trivial ⟨trivial, h⟩

end Account

/-- The requests that leave the disk alone: calls to the host, and what they take. -/
def Effect.touchesHost : Effect → Bool
  | host _ | resolve _ | pause _ => true
  | cancelled | now | process | lock | unlock | prepare | save _ | load _ | latest => false

/-- The calls a script makes when it ends with a result, for some replies. -/
def MakesCalls {α : Type} (p : Effects α) (calls : List HostCall) (a : α) : Prop :=
  p.Reaches Account.setting {} (.done a) { calls }

/-- The calls a script makes first, for some replies. -/
def Begins {α : Type} (p : Effects α) (calls : List HostCall) : Prop :=
  ∃ q, p.Reaches Account.setting {} q { calls }

/-! ### Scripts that leave the disk alone -/

section Only

variable {α : Type}

/-- A script that leaves the disk alone tells of its calls and of nothing else. -/
theorem ensures_calls {p : Effects α} (hp : p.Only (Effect.touchesHost ·)) (s : Account) :
    p.Ensures Account.setting
      (fun t => t.saved = s.saved ∧ ∃ calls, t.calls = s.calls ++ calls ∧ Begins p calls)
      (fun a t => t.saved = s.saved ∧ ∃ calls, t.calls = s.calls ++ calls ∧ MakesCalls p calls a) s := by
  suffices h : ∀ (s₀ : Account) (before : List HostCall) (p₀ : Effects α),
      p₀.Reaches Account.setting {} p { calls := before } → s₀.saved = s.saved →
      s₀.calls = s.calls ++ before →
      p.Ensures Account.setting
        (fun t => t.saved = s.saved ∧ ∃ calls, t.calls = s.calls ++ calls ∧ Begins p₀ calls)
        (fun a t => t.saved = s.saved ∧
          ∃ calls, t.calls = s.calls ++ calls ∧ MakesCalls p₀ calls a) s₀ from
    h s [] p (.here _ _) rfl (by simp)
  induction p with
  | done a => exact fun s₀ before p₀ hr hs hc => ⟨⟨hs, before, hc, _, hr⟩, hs, before, hc, hr⟩
  | ask r k ih =>
    intro s₀ before p₀ hr hs hc
    refine ⟨⟨hs, before, hc, _, hr⟩, fun x t hx => ?_⟩
    have hstep : ∀ u, Account.setting { calls := before } r x u →
        p₀.Reaches Account.setting {} (k x) u := fun u hu => hr.trans (.ask hu (.here _ _))
    obtain ⟨hr₁, hp₁⟩ := hp
    cases r with
    | host c =>
      obtain rfl : t = { s₀ with calls := s₀.calls ++ [c] } := hx
      exact ih x (hp₁ x) _ (before ++ [c]) p₀ (hstep _ rfl) hs (by simp [hc])
    | resolve paths => obtain rfl : t = s₀ := hx; exact ih x (hp₁ x) _ before p₀ (hstep _ rfl) hs hc
    | pause d => obtain rfl : t = s₀ := hx; exact ih x (hp₁ x) _ before p₀ (hstep _ rfl) hs hc
    | _ => exact absurd hr₁ (by simp [Effect.touchesHost])

theorem Effect.serves.touchesHost {action : StepAction} {e : Effect} (h : e.serves action) :
    e.touchesHost = true := by
  cases e <;> first | rfl | exact h.elim

theorem ensures_calls_apply (policy : Retry) (action : StepAction) (s : Account) :
    (action.apply policy).Ensures Account.setting (fun _ => True) (fun r t => t.saved = s.saved ∧
      ∃ calls, t.calls = s.calls ++ calls ∧ MakesCalls (action.apply policy) calls r) s :=
  (ensures_calls ((action.only_apply policy).mono fun _ => Effect.serves.touchesHost) s).mono
    (fun _ _ _ _ _ hx => hx) (fun _ _ => trivial) fun _ _ _ h => h

/-- The calls that a script makes are requests that it can make. -/
theorem Begins.only {p : Effects α} {P : Effect → Prop} (hp : p.Only P) {calls : List HostCall}
    (h : Begins p calls) : ∀ c ∈ calls, P (.host c) := by
  have hstep : ∀ (s : Account) (r : Effect) (x : r.Reply) (s' : Account), P r →
      (∀ c ∈ s.calls, P (.host c)) → Account.setting s r x s' → ∀ c ∈ s'.calls, P (.host c) := by
    intro s r x s' hr hs hx
    cases r with
    | host c =>
      obtain rfl : s' = { s with calls := s.calls ++ [c] } := hx
      intro c' hc'
      rcases List.mem_append.1 hc' with hc' | hc'
      · exact hs c' hc'
      · rw [List.mem_singleton.1 hc']; exact hr
    | save log =>
      have hcalls : s'.calls = s.calls := by
        cases x with
        | ok _ => obtain rfl : s' = { s with saved := log :: s.saved } := hx; rfl
        | error e => obtain rfl | rfl : s' = s ∨ s' = { s with saved := log :: s.saved } := hx <;> rfl
      rw [hcalls]; exact hs
    | _ => obtain rfl : s' = s := hx; exact hs
  obtain ⟨q, hq⟩ := h
  exact ((hp.ensures hstep (s := {}) (by simp)).sound hq).now

/-- The calls of a script that makes only requests of an action are calls of the
action. -/
theorem MakesCalls.serves {p : Effects α} {action : StepAction} (hp : p.Only (Effect.serves action))
    {calls : List HostCall} {a : α} (h : MakesCalls p calls a) : ∀ c ∈ calls, c.serves action :=
  Begins.only hp ⟨_, h⟩

end Only

end Provision
