import Mathlib.Algebra.Order.Ring.Nat
import Mathlib.Tactic.Common
import Provision.Retry.Words

/-!
# How long a pause is

Pauses double up to a limit. The words they are calculated in could be too small for that, but nothing
is lost in them.

* `word32?_eq_some`, `word64?_eq_some`: what fits into a word is kept.
* `Duration.Words.exists_ofMillis`, `exists_times`, `duration_shorter`: **durations in words are the
  exact ones**, and a multiple in words is at most the longest duration, as it is otherwise.
* `Retry.growth_eq`: the growth is the power of two, at most what 32 bits can hold.
* `Retry.powerFrom_eq`: **squaring fails only where the power does not fit.**
* `Retry.backoff_le`, `backoff_mono`, `backoff_ofMillis`: pauses keep to the limit, never get shorter,
  and double exactly.
* `Retry.backoff_exact`: **no number on the way to a pause fails to fit, and the pause is the exact
  one.**
-/

namespace Provision

/-! ### Words -/

section

variable {n : Nat}

theorem word32?_eq_some {w : UInt32} : word32? n = some w ↔ w.toNat = n := by
  unfold word32?
  split
  · rw [Option.some_inj, ← UInt32.toNat_inj, UInt32.toNat_ofNatLT, eq_comm]
  · rename_i hlarge
    exact ⟨nofun, fun h => absurd (h ▸ w.toNat_lt_size) hlarge⟩

theorem word64?_eq_some {w : UInt64} : word64? n = some w ↔ w.toNat = n := by
  unfold word64?
  split
  · rw [Option.some_inj, ← UInt64.toNat_inj, UInt64.toNat_ofNatLT, eq_comm]
  · rename_i hlarge
    exact ⟨nofun, fun h => absurd (h ▸ w.toNat_lt_size) hlarge⟩

theorem word32?_eq_none : word32? n = none ↔ UInt32.size ≤ n := by
  simp [word32?]

theorem word64?_eq_none : word64? n = none ↔ UInt64.size ≤ n := by
  simp [word64?]

theorem exists_word32 (h : n < UInt32.size) : ∃ w, word32? n = some w ∧ w.toNat = n :=
  ⟨_, dif_pos h, UInt32.toNat_ofNatLT⟩

theorem exists_word64 (h : n < UInt64.size) : ∃ w, word64? n = some w ∧ w.toNat = n :=
  ⟨_, dif_pos h, UInt64.toNat_ofNatLT⟩

/-- What does not fit does not fit either once it has grown. -/
theorem bind_word32? {f : Nat → Nat} (h : n ≤ f n) :
    ((word32? n).bind fun w => word32? (f w.toNat)) = word32? (f n) := by
  cases hn : word32? n with
  | none => exact (word32?_eq_none.2 ((word32?_eq_none.1 hn).trans h)).symm
  | some w => rw [Option.bind_some, word32?_eq_some.1 hn]

theorem bind_word64? {f : Nat → Nat} (h : n ≤ f n) :
    ((word64? n).bind fun w => word64? (f w.toNat)) = word64? (f n) := by
  cases hn : word64? n with
  | none => exact (word64?_eq_none.2 ((word64?_eq_none.1 hn).trans h)).symm
  | some w => rw [Option.bind_some, word64?_eq_some.1 hn]

end

namespace Duration.Words

/-! ### Durations in words -/

/-- Some seconds and nanoseconds are a duration, unless they are longer than the longest one. -/
theorem exists_new {secs : UInt64} {nanos : UInt32}
    (h : secs.toNat * 1000000000 + nanos.toNat ≤ Duration.longest.nanos) :
    ∃ d, new secs nanos = some d ∧ d.duration = ⟨secs.toNat * 1000000000 + nanos.toNat⟩ := by
  by_cases hnanos : nanos.toNat < 1000000000
  · exact ⟨_, dif_pos hnanos, rfl⟩
  · have hfits : secs.toNat + nanos.toNat / 1000000000 < UInt64.size := by
      simp only [Duration.longest, UInt64.size] at h ⊢
      omega
    obtain ⟨w, hw, hsecs⟩ := exists_word64 hfits
    refine ⟨⟨w, nanos % 1000000000, Nat.mod_lt _ (by decide)⟩, ?_, ?_⟩
    · rw [new, dif_neg hnanos, hw]
      rfl
    · have hrest : (nanos % 1000000000).toNat = nanos.toNat % 1000000000 := UInt32.toNat_mod ..
      rw [duration, hrest, hsecs, Duration.mk.injEq]
      omega

/-- **Milliseconds are kept exactly.** -/
theorem exists_ofMillis (millis : UInt64) :
    ∃ d, ofMillis millis = some d ∧ d.duration = .ofMillis millis.toNat := by
  have hmod : (millis % 1000).toNat = millis.toNat % 1000 := UInt64.toNat_mod ..
  have hdiv : (millis / 1000).toNat = millis.toNat / 1000 := UInt64.toNat_div ..
  have hlt := millis.toNat_lt_size
  have hsize : UInt32.size = 4294967296 := rfl
  obtain ⟨rest, hrest, hrest'⟩ := exists_word32 (n := (millis % 1000).toNat) (by omega)
  obtain ⟨nanos, hnanos, hnanos'⟩ := exists_word32 (n := rest.toNat * 1000000) (by omega)
  have hfits : (millis / 1000).toNat * 1000000000 + nanos.toNat ≤ Duration.longest.nanos := by
    simp only [Duration.longest, UInt64.size] at hlt ⊢
    omega
  obtain ⟨d, hd, hd'⟩ := exists_new hfits
  refine ⟨d, ?_, ?_⟩
  · unfold ofMillis
    exact Option.bind_eq_some_iff.2 ⟨rest, hrest, Option.bind_eq_some_iff.2 ⟨nanos, hnanos, hd⟩⟩
  · rw [hd', Duration.ofMillis, Duration.mk.injEq]
    omega

/-- **A multiple in words is the multiple**, at most the longest duration. -/
theorem exists_times (d : Words) (n : UInt32) :
    ∃ p, d.times n = some p ∧ p.duration = d.duration.times n.toNat := by
  have hproduct : d.nanos.toNat * n.toNat < UInt64.size :=
    (Nat.mul_lt_mul'' d.nanos_lt n.toNat_lt_size).trans (by decide)
  obtain ⟨total, htotal, htotal'⟩ := exists_word64 hproduct
  have hmod : (total % 1000000000).toNat = total.toNat % 1000000000 := UInt64.toNat_mod ..
  have hdiv : (total / 1000000000).toNat = total.toNat / 1000000000 := UInt64.toNat_div ..
  have hrest : (total % 1000000000).toNat < UInt32.size := by
    unfold UInt32.size
    omega
  obtain ⟨nanos, hnanos, hnanos'⟩ := exists_word32 hrest
  -- the multiple, in seconds and nanoseconds
  have hmultiple : d.duration.nanos * n.toNat =
      (d.secs.toNat * n.toNat + (total / 1000000000).toNat) * 1000000000 + nanos.toNat := by
    rw [duration, Nat.add_mul, ← htotal', Nat.mul_right_comm]
    omega
  have hcarry := bind_word64? (n := d.secs.toNat * n.toNat) (f := (· + (total / 1000000000).toNat))
    (Nat.le_add_right ..)
  simp only [times, htotal, hnanos, Option.bind_eq_bind, Option.bind_some, hcarry]
  cases hsecs : word64? (d.secs.toNat * n.toNat + (total / 1000000000).toNat) with
  | some secs =>
    rw [word64?_eq_some] at hsecs
    have hlt := secs.toNat_lt_size
    have hfits : secs.toNat * 1000000000 + nanos.toNat ≤ Duration.longest.nanos := by
      simp only [Duration.longest, UInt64.size] at hlt ⊢
      omega
    obtain ⟨p, hp, hp'⟩ := exists_new hfits
    refine ⟨p, hp, ?_⟩
    rw [hp', Duration.times, hmultiple, ← hsecs, Duration.shorter, Nat.min_eq_left hfits]
  | none =>
    rw [word64?_eq_none] at hsecs
    refine ⟨longest, rfl, ?_⟩
    have hlong : Duration.longest.nanos ≤ d.duration.nanos * n.toNat := by
      rw [hmultiple]
      simp only [Duration.longest, UInt64.size] at hsecs ⊢
      omega
    rw [Duration.times, Duration.shorter, Nat.min_eq_right hlong]
    rfl

/-- **The shorter one in words is the shorter one.** -/
theorem duration_shorter (a b : Words) : (a.shorter b).duration = a.duration.shorter b.duration := by
  have ha := a.nanos_lt
  have hb := b.nanos_lt
  unfold shorter
  split <;> rename_i h <;>
    rw [UInt64.lt_iff_toNat_lt, UInt32.lt_iff_toNat_lt, ← UInt64.toNat_inj] at h <;>
    simp only [duration, Duration.shorter, Duration.mk.injEq] <;> omega

end Duration.Words

namespace Retry

/-! ### Powers -/

theorem growth_eq (n : Nat) : growth n = min (2 ^ n) (UInt32.size - 1) := by
  unfold growth
  split
  · rename_i h
    have hle : 2 ^ n ≤ 2 ^ 31 := Nat.pow_le_pow_right (by decide) (by omega)
    rw [Nat.one_shiftLeft, Nat.min_eq_left (hle.trans (by decide))]
  · rename_i h
    have hle : 2 ^ 32 ≤ 2 ^ n := Nat.pow_le_pow_right (by decide) (by omega)
    rw [Nat.min_eq_right ((by decide : UInt32.size - 1 ≤ 2 ^ 32).trans hle)]

theorem growth_mono {m n : Nat} (h : m ≤ n) : growth m ≤ growth n := by
  rw [growth_eq, growth_eq]
  exact min_le_min_right _ (Nat.pow_le_pow_right (by decide) h)

/-- **Squaring fails only where the power does not fit.** -/
theorem powerFrom_eq {acc base exponent : UInt32} (hacc : 0 < acc.toNat) (hbase : 0 < base.toNat) :
    powerFrom acc base exponent = word32? (acc.toNat * base.toNat ^ exponent.toNat) := by
  -- by induction on the exponent, which is halved
  induction hk : exponent.toNat using Nat.strong_induction_on generalizing acc base exponent with
  | _ k ih =>
    have hodd : exponent % 2 = 1 ↔ k % 2 = 1 := by
      rw [← UInt32.toNat_inj, UInt32.toNat_mod, hk]
      rfl
    have hone : exponent ≤ 1 ↔ k ≤ 1 := by
      rw [UInt32.le_iff_toNat_le, hk]
      rfl
    have hhalf : (exponent / 2).toNat = k / 2 := by
      rw [UInt32.toNat_div, hk]
      rfl
    have hsplit : base.toNat ^ k = base.toNat ^ (k % 2) * (base.toNat * base.toNat) ^ (k / 2) := by
      rw [← sq, ← pow_mul, ← pow_add, Nat.mod_add_div]
    have hsquare := Nat.mul_pos hbase hbase
    -- what is left to do once an odd factor was taken out
    have hrest : ∀ taken : UInt32, 0 < taken.toNat →
        (if exponent ≤ 1 then some taken
          else (word32? (base.toNat * base.toNat)).bind fun base => powerFrom taken base (exponent / 2)) =
          word32? (taken.toNat * (base.toNat * base.toNat) ^ (k / 2)) := by
      intro taken htaken
      by_cases hfew : k ≤ 1
      · have hzero : k / 2 = 0 := by omega
        rw [if_pos (hone.2 hfew), hzero, pow_zero, Nat.mul_one]
        exact (word32?_eq_some.2 rfl).symm
      · have hle : base.toNat * base.toNat ≤ taken.toNat * (base.toNat * base.toNat) ^ (k / 2) :=
          (Nat.le_self_pow (by omega) _).trans (Nat.le_mul_of_pos_left _ htaken)
        rw [if_neg fun h => hfew (hone.1 h), ← bind_word32? (f := fun b => taken.toNat * b ^ (k / 2)) hle]
        refine Option.bind_congr fun square h => ih (k / 2) (by omega) htaken ?_ hhalf
        exact word32?_eq_some.1 h ▸ hsquare
    rw [powerFrom, hsplit]
    by_cases hfactor : k % 2 = 1
    · have hle : acc.toNat * base.toNat ≤
          acc.toNat * base.toNat * (base.toNat * base.toNat) ^ (k / 2) :=
        Nat.le_mul_of_pos_right _ (Nat.pow_pos hsquare)
      rw [if_pos (hodd.2 hfactor), hfactor, pow_one, ← Nat.mul_assoc,
        ← bind_word32? (f := fun a => a * (base.toNat * base.toNat) ^ (k / 2)) hle]
      exact Option.bind_congr fun taken h => hrest taken (word32?_eq_some.1 h ▸ Nat.mul_pos hacc hbase)
    · rw [if_neg fun h => hfactor (hodd.1 h), Nat.mod_two_ne_one.1 hfactor, pow_zero, Nat.one_mul]
      exact hrest acc hacc

/-- The power of two that a pause has grown by. -/
theorem toNat_power (exponent : UInt32) : (power 2 exponent).toNat = growth exponent.toNat := by
  rw [growth_eq, power, powerFrom_eq (by decide) (by decide)]
  change ((word32? (1 * 2 ^ exponent.toNat)).getD _).toNat = _
  rw [Nat.one_mul]
  cases hpower : word32? (2 ^ exponent.toNat) with
  | none =>
    have hle := word32?_eq_none.1 hpower
    exact (Nat.min_eq_right ((Nat.sub_le _ 1).trans hle)).symm
  | some w =>
    have heq := word32?_eq_some.1 hpower
    exact heq.trans (Nat.min_eq_left (heq ▸ Nat.le_sub_one_of_lt w.toNat_lt_size)).symm

/-! ### Pauses -/

variable (policy : Retry)

/-- A pause is never longer than the limit. -/
theorem backoff_le (n : Nat) : (policy.backoff n).nanos ≤ policy.maxBackoff.nanos :=
  Nat.min_le_right _ _

/-- A later pause is never shorter. -/
theorem backoff_mono {m n : Nat} (h : m ≤ n) : (policy.backoff m).nanos ≤ (policy.backoff n).nanos := by
  have hgrowth := growth_mono (Nat.sub_le_sub_right h 1)
  exact min_le_min_right _ (min_le_min_right _ (Nat.mul_le_mul_left _ hgrowth))

/-- Where the growth is cut off the limit is reached all the same. -/
theorem min_growth {initial longest n : Nat} (h : n ≤ 32 ∨ longest ≤ initial * (2 ^ 32 - 1)) :
    min (initial * growth (n - 1)) longest = min (initial * 2 ^ (n - 1)) longest := by
  have hsize : UInt32.size = 2 ^ 32 := rfl
  rw [growth_eq, hsize]
  rcases Nat.lt_or_ge (2 ^ (n - 1)) (2 ^ 32) with hfits | hlarge
  · rw [Nat.min_eq_left (Nat.le_sub_one_of_lt hfits)]
  · have hlong : longest ≤ initial * (2 ^ 32 - 1) := by
      refine h.resolve_left fun hfew => ?_
      have hle : 2 ^ (n - 1) ≤ 2 ^ 31 := Nat.pow_le_pow_right (by decide) (by omega)
      omega
    have hle : 2 ^ 32 - 1 ≤ 2 ^ (n - 1) := (Nat.sub_le _ 1).trans hlarge
    rw [Nat.min_eq_right hle, Nat.min_eq_right hlong,
      Nat.min_eq_right (hlong.trans (Nat.mul_le_mul_left _ hle))]

/-- **A pause is the first one doubled so often**, at most the limit: as long as the power of two
fits into 32 bits, or where the limit is within reach of the largest that does. -/
theorem backoff_ofMillis (maxAttempts : Nat) {initial longest n : Nat} (hlongest : longest < UInt64.size)
    (h : n ≤ 32 ∨ longest ≤ initial * (2 ^ 32 - 1)) :
    (Retry.ofMillis maxAttempts initial longest).backoff n =
      .ofMillis (min (initial * 2 ^ (n - 1)) longest) := by
  have hlimit : longest * 1000000 ≤ Duration.longest.nanos := by
    simp only [Duration.longest, UInt64.size] at hlongest ⊢
    omega
  rw [backoff, Duration.ofMillis, ← min_growth h, Duration.mk.injEq]
  calc min (min (initial * 1000000 * growth (n - 1)) Duration.longest.nanos) (longest * 1000000)
      = min (initial * growth (n - 1) * 1000000) (longest * 1000000) := by
        rw [Nat.min_assoc, Nat.min_eq_right hlimit, Nat.mul_right_comm]
    _ = min (initial * growth (n - 1)) longest * 1000000 := Nat.mul_min_mul_right ..

/-- Half a second is doubled up to eight. -/
example : [1, 2, 3, 5, 40].map (fun n => ((Retry.ofMillis 4 500 8000).backoff n).millis) =
    [500, 1000, 2000, 8000, 8000] := by decide

namespace Words

/-- The settings are kept exactly. -/
theorem exists_ofMillis (maxAttempts : UInt32) (initial longest : UInt64) :
    ∃ policy, Words.ofMillis maxAttempts initial longest = some policy ∧
      policy.retry = .ofMillis maxAttempts.toNat initial.toNat longest.toNat := by
  obtain ⟨first, hfirst, hfirst'⟩ := Duration.Words.exists_ofMillis initial
  obtain ⟨limit, hlimit, hlimit'⟩ := Duration.Words.exists_ofMillis longest
  refine ⟨⟨max maxAttempts 1, first, limit⟩, ?_, ?_⟩
  · simp only [ofMillis, hfirst, hlimit, Option.bind_eq_bind, Option.bind_some]
    rfl
  · have hmax : (max maxAttempts 1).toNat = max maxAttempts.toNat 1 := by
      have hone : (1 : UInt32).toNat = 1 := rfl
      change (if maxAttempts ≤ 1 then 1 else maxAttempts).toNat = _
      split <;> rename_i h <;> rw [UInt32.le_iff_toNat_le] at h <;> omega
    rw [retry, Retry.ofMillis, hfirst', hlimit', hmax]

/-- **A pause in words is the pause.** -/
theorem exists_backoff (policy : Words) (n : UInt32) :
    ∃ pause, policy.backoff n = some pause ∧ pause.duration = policy.retry.backoff n.toNat := by
  obtain ⟨pause, hpause, hpause'⟩ :=
    policy.initialBackoff.exists_times (power 2 (if n = 0 then 0 else n - 1))
  refine ⟨pause.shorter policy.maxBackoff, ?_, ?_⟩
  · simp only [backoff, hpause, Option.bind_eq_bind, Option.bind_some]
    rfl
  · have hless : (if n = 0 then 0 else n - 1).toNat = n.toNat - 1 := by
      split
      · rename_i hzero
        rw [hzero]
        rfl
      · rename_i hn
        have hpos : n.toNat ≠ 0 := fun h => hn (UInt32.toNat_inj.1 h)
        exact UInt32.toNat_sub_of_le n 1 (UInt32.le_iff_toNat_le.2 (Nat.one_le_iff_ne_zero.2 hpos))
    rw [Duration.Words.duration_shorter, hpause', toNat_power, hless]
    rfl

end Words

/-- **No number on the way to a pause fails to fit, and the pause is the exact one.** Whatever the
settings are, there is a policy in words, and after every attempt a pause. It keeps to the limit, no
earlier one is longer, and it is the first pause doubled so often, as long as the power of two fits
into 32 bits or where the limit is within reach. -/
theorem backoff_exact (maxAttempts : UInt32) (initial longest : UInt64) :
    ∃ policy, Words.ofMillis maxAttempts initial longest = some policy ∧
      policy.retry = .ofMillis maxAttempts.toNat initial.toNat longest.toNat ∧
      ∀ n : UInt32, ∃ pause, policy.backoff n = some pause ∧
        pause.duration = policy.retry.backoff n.toNat ∧
        pause.duration.nanos ≤ policy.maxBackoff.duration.nanos ∧
        (∀ m ≤ n, ∀ earlier, policy.backoff m = some earlier →
          earlier.duration.nanos ≤ pause.duration.nanos) ∧
        (n ≤ 32 ∨ longest.toNat ≤ initial.toNat * (2 ^ 32 - 1) →
          pause.duration = .ofMillis (min (initial.toNat * 2 ^ (n.toNat - 1)) longest.toNat)) := by
  obtain ⟨policy, hpolicy, hretry⟩ := Words.exists_ofMillis maxAttempts initial longest
  refine ⟨policy, hpolicy, hretry, fun n => ?_⟩
  obtain ⟨pause, hpause, hduration⟩ := policy.exists_backoff n
  refine ⟨pause, hpause, hduration, ?_, fun m hm earlier hearlier => ?_, fun h => ?_⟩
  · rw [hduration]
    exact policy.retry.backoff_le n.toNat
  · obtain ⟨pause', hpause', hduration'⟩ := policy.exists_backoff m
    obtain rfl : earlier = pause' := Option.some.inj (hearlier.symm.trans hpause')
    rw [hduration, hduration']
    exact policy.retry.backoff_mono (UInt32.le_iff_toNat_le.1 hm)
  · rw [hduration, hretry]
    exact backoff_ofMillis _ longest.toNat_lt_size (h.imp_left UInt32.le_iff_toNat_le.1)

end Retry

end Provision
