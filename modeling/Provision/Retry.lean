import Provision.Duration
import Provision.Effect

/-!
# Retrying

An operation that fails because the bus could not be reached is tried again, a
bounded number of times, with pauses that double up to a limit. Every other
failure is final.

* `Retry.allows`, `Retry.backoff`: whether another attempt may follow, and how
  long to wait for it.
* `Retry.attempts`: the operation with its retries. What an attempt learned is
  handed to the next one.
* `allows_iff_left`: the attempts that are left are those that the policy
  allows.
-/

namespace Provision

/-- How often to try, and how long to wait in between. -/
structure Retry where
  /-- Attempts in all, the first one included. -/
  maxAttempts : Nat
  initialBackoff : Duration
  maxBackoff : Duration
deriving DecidableEq, Inhabited, Repr

namespace Retry

/-- The policy with these settings; there is always a first attempt. -/
def ofMillis (maxAttempts initial longest : Nat) : Retry :=
  ⟨max maxAttempts 1, .ofMillis initial, .ofMillis longest⟩

/-- The policy that never waits. -/
def immediate (maxAttempts : Nat) : Retry := ⟨max maxAttempts 1, .zero, .zero⟩

/-- Whether another attempt may follow attempt `n`, counted from 1. -/
def allows (policy : Retry) (n : Nat) : Bool := n < policy.maxAttempts

/-- The power of two that a pause has grown by, at most what 32 bits can hold. -/
def growth (n : Nat) : Nat := if n < 32 then 1 <<< n else UInt32.size - 1

/-- The pause after attempt `n`, counted from 1. -/
def backoff (policy : Retry) (n : Nat) : Duration :=
  (policy.initialBackoff.times (growth (n - 1))).shorter policy.maxBackoff

variable {σ α : Type}

/-- Attempt `n` and, while a failure is transient, up to `left` more. -/
def attemptsFrom (policy : Retry) (op : σ → Effects (Except HostError α × σ)) :
    Nat → Nat → σ → Effects (Except HostError α × σ)
  | 0, _, s => op s
  | left + 1, n, s => do
    let (result, s) ← op s
    match result with
    | .ok a => return (.ok a, s)
    | .error e =>
      if e.isTransient then
        Effect.wait (policy.backoff n)
        policy.attemptsFrom op left (n + 1) s
      else return (.error e, s)

/-- An operation with its retries, from what is known before the first attempt. -/
def attempts (policy : Retry) (op : σ → Effects (Except HostError α × σ)) (s : σ) :
    Effects (Except HostError α × σ) :=
  policy.attemptsFrom op (policy.maxAttempts - 1) 1 s

/-- An operation that learns nothing, with its retries. -/
def repeating (policy : Retry) (op : Effects (Except HostError α)) :
    Effects (Except HostError α) :=
  (·.1) <$> policy.attempts (fun () => (·, ()) <$> op) ()

/-- The attempts that are left after attempt `n` are those that are allowed. -/
theorem allows_iff_left (policy : Retry) {left n : Nat}
    (h : left = policy.maxAttempts - n) : policy.allows n = true ↔ 0 < left := by
  simp only [allows, decide_eq_true_eq]; omega

end Retry

end Provision
