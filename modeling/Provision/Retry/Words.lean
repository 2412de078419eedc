import Provision.Duration.Words
import Provision.Retry

/-!
# Pauses in machine words

The pauses of `Retry.backoff`, calculated in words of 32 and 64 bits.

* `Retry.powerFrom`, `Retry.power`: a power of a number of 32 bits, at most the largest such number.
* `Retry.Words`, `Words.ofMillis`, `Words.backoff`: a policy, and the pause after an attempt. There is
  none if some number on the way to it does not fit into its word.
* `Words.retry`: the policy that the words stand for.
-/

namespace Provision.Retry

/-- A number times a power, by squaring. There is none if it does not fit into 32 bits. -/
def powerFrom (acc base exponent : UInt32) : Option UInt32 :=
  (if exponent % 2 = 1 then word32? (acc.toNat * base.toNat) else some acc).bind fun acc =>
    if hone : exponent ≤ 1 then some acc
    else (word32? (base.toNat * base.toNat)).bind fun base => powerFrom acc base (exponent / 2)
termination_by exponent.toNat
decreasing_by
  have hmore : ¬exponent.toNat ≤ 1 := fun h => hone (UInt32.le_iff_toNat_le.2 h)
  rw [UInt32.toNat_div]
  exact Nat.div_lt_self (by omega) (by decide)

/-- A power, or the largest number of 32 bits if that is less. -/
def power (base exponent : UInt32) : UInt32 :=
  (powerFrom 1 base exponent).getD (.ofNat (UInt32.size - 1))

/-- How often to try, and how long to wait in between. -/
structure Words where
  maxAttempts : UInt32
  initialBackoff : Duration.Words
  maxBackoff : Duration.Words
deriving DecidableEq, Repr

namespace Words

/-- The policy that the words stand for. -/
def retry (policy : Words) : Retry :=
  ⟨policy.maxAttempts.toNat, policy.initialBackoff.duration, policy.maxBackoff.duration⟩

/-- The policy with these settings; there is always a first attempt. -/
def ofMillis (maxAttempts : UInt32) (initial longest : UInt64) : Option Words := do
  let initialBackoff ← Duration.Words.ofMillis initial
  let maxBackoff ← Duration.Words.ofMillis longest
  return { maxAttempts := max maxAttempts 1, initialBackoff, maxBackoff }

/-- The pause after attempt `n`, counted from 1. -/
def backoff (policy : Words) (n : UInt32) : Option Duration.Words := do
  let factor := power 2 (if n = 0 then 0 else n - 1)
  let pause ← policy.initialBackoff.times factor
  return pause.shorter policy.maxBackoff

end Words

end Provision.Retry
