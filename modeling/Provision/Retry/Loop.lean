import Provision.Retry

/-!
# Retrying in a loop

The attempts of `Retry.attempts`, made in a loop that is not told how many there
will be: it numbers them from 1, and goes on as long as the policy allows.

* `Retry.loopFrom`, `Retry.loop`: the operation with its retries. That the
  number of an attempt no longer fits into 32 bits is an outcome of its own.
-/

namespace Provision.Retry

variable {σ α : Type}

/-- Attempt `n` and, while a failure is transient and the policy allows it, those after it. There is
no result if an attempt cannot be numbered. -/
def loopFrom (policy : Retry) (op : σ → Effects (Except HostError α × σ)) (n : Nat) (s : σ) :
    Effects (Option (Except HostError α × σ)) := do
  let (result, s) ← op s
  match result with
  | .ok a => return some (.ok a, s)
  | .error e =>
    if again : e.isTransient ∧ policy.allows n then
      Effect.wait (policy.backoff n)
      if n + 1 < UInt32.size then policy.loopFrom op (n + 1) s else return none
    else return some (.error e, s)
termination_by policy.maxAttempts - n
decreasing_by
  -- the policy allows an attempt only while there is one left
  have hlt : n < policy.maxAttempts := by simpa [allows] using again.2
  omega

/-- An operation with its retries, from what is known before the first attempt. -/
def loop (policy : Retry) (op : σ → Effects (Except HostError α × σ)) (s : σ) :
    Effects (Option (Except HostError α × σ)) :=
  policy.loopFrom op 1 s

end Provision.Retry
