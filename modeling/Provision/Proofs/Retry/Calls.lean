import Mathlib.Data.ENat.Lattice
import Provision.Proofs.Script.Reach
import Provision.Retry.Loop

/-!
# How often an operation is called

* `Retry.loopFrom_eq`: **the loop is the attempts**: each of them can be numbered, and none more is made
  than are left.
* `Retry.noting`: an operation that keeps what it gave at each call.
* `Retry.Again`, `Retry.firstFinal`: a result that is worth another attempt, and the first that is not.
* `returns_noting`: what was given before the last call was worth another attempt.
* `loop_calls`: **an operation is called until its result is final, or the budget is spent.**
-/

namespace Provision.Retry

open Script

variable {σ α : Type} {policy : Retry} {op : σ → Effects (Except HostError α × σ)}

/-! ### The loop -/

/-- **The loop is the attempts**, as many as are left. -/
theorem loopFrom_eq (policy : Retry) (hmax : policy.maxAttempts < 2 ^ 32)
    (op : σ → Effects (Except HostError α × σ)) {left n : Nat} (h : left = policy.maxAttempts - n) (s : σ) :
    policy.loopFrom op n s = some <$> policy.attemptsFrom op left n s := by
  have hleft := policy.allows_iff_left h
  induction left generalizing n s with
  | zero =>
    rw [loopFrom, attemptsFrom, map_eq_pure_bind]
    congr 1
    funext ⟨result, s'⟩
    cases result with
    | ok a => rfl
    | error e =>
      have hstop : ¬(e.isTransient = true ∧ policy.allows n = true) := by
        intro hagain
        have := hleft.1 hagain.2
        omega
      exact dif_neg hstop
  | succ left ih =>
    have hallows : policy.allows n = true := hleft.2 (Nat.succ_pos left)
    -- the number of the next attempt is within the budget, and the budget within 32 bits
    have hsize : n + 1 < UInt32.size := by
      have hlt : n < policy.maxAttempts := by simpa [allows] using hallows
      have : UInt32.size = 2 ^ 32 := rfl
      omega
    have hnext : left = policy.maxAttempts - (n + 1) := by omega
    rw [loopFrom, attemptsFrom, map_bind]
    congr 1
    funext ⟨result, s'⟩
    cases result with
    | ok a => rfl
    | error e =>
      dsimp only
      by_cases he : e.isTransient = true
      · rw [dif_pos ⟨he, hallows⟩, if_pos he, if_pos hsize, map_bind,
          ih hnext s' (policy.allows_iff_left hnext)]
      · rw [dif_neg fun hagain => he hagain.1, if_neg he]
        rfl

theorem loop_eq (policy : Retry) (hmax : policy.maxAttempts < 2 ^ 32)
    (op : σ → Effects (Except HostError α × σ)) (s : σ) :
    policy.loop op s = some <$> policy.attempts op s :=
  loopFrom_eq policy hmax op rfl s

/-! ### The calls -/

/-- An operation that keeps what it gave at each call. -/
def noting (op : σ → Effects (Except HostError α × σ)) :
    σ × List (Except HostError α) → Effects (Except HostError α × σ × List (Except HostError α))
  | (s, given) => (fun out => (out.1, out.2, given ++ [out.1])) <$> op s

/-- Keeping what was given makes no difference. -/
theorem attemptsFrom_noting (policy : Retry) (op : σ → Effects (Except HostError α × σ)) (left n : Nat)
    (s : σ) (given : List (Except HostError α)) : policy.attemptsFrom op left n s =
      (fun out => (out.1, out.2.1)) <$> policy.attemptsFrom (noting op) left n (s, given) := by
  induction left generalizing n s given with
  | zero =>
    show op s = (fun out => (out.1, out.2.1)) <$> (fun out => (out.1, out.2, given ++ [out.1])) <$> op s
    simp
  | succ left ih =>
    rw [attemptsFrom, attemptsFrom, noting, map_bind, bind_map_left]
    congr 1
    funext ⟨result, s'⟩
    cases result with
    | ok a => rfl
    | error e =>
      show (if e.isTransient = true then _ else _) = _ <$> (if e.isTransient = true then _ else _)
      split
      · rw [map_bind]
        congr 1
        funext _
        exact ih (n + 1) s' _
      · rfl

/-- A result that is worth another attempt. -/
def Again (result : Except HostError α) : Prop := ∃ e, result = .error e ∧ e.isTransient = true

/-- The number of the first result that is final, counted from 1, if there is one. -/
noncomputable def firstFinal (results : ℕ → Except HostError α) : ℕ∞ :=
  ⨅ i ∈ {i | ¬Again (results i)}, ((i + 1 : ℕ) : ℕ∞)

/-- **What was given before the last call** was worth another attempt; and if the last result was so,
too, then no attempt was left. -/
theorem returns_noting (op : σ → Effects (Except HostError α × σ)) (left n : Nat) (s : σ)
    (given : List (Except HostError α)) :
    (policy.attemptsFrom (noting op) left n (s, given)).Returns fun out =>
      ∃ front, out.2.2 = given ++ front ++ [out.1] ∧ (∀ r ∈ front, Again r) ∧ front.length ≤ left ∧
        (Again out.1 → front.length = left) := by
  induction left generalizing n s given with
  | zero =>
    refine (returns_any (op s)).map fun out _ => ⟨[], by simp, by simp, le_rfl, fun _ => rfl⟩
  | succ left ih =>
    rw [attemptsFrom, noting, bind_map_left]
    refine (returns_any (op s)).bind fun out _ => ?_
    obtain ⟨result, s'⟩ := out
    have hfinal : ∀ r : Except HostError α, ¬Again r → ∃ front, given ++ [r] = given ++ front ++ [r] ∧
        (∀ r ∈ front, Again r) ∧ front.length ≤ left + 1 ∧ (Again r → front.length = left + 1) :=
      fun r hr => ⟨[], by simp, by simp, Nat.zero_le _, fun h => absurd h hr⟩
    cases result with
    | ok a => exact hfinal _ (by simp [Again])
    | error e =>
      show Script.Returns _ (if e.isTransient = true then _ else _)
      split
      · rename_i he
        refine (returns_any _).bind fun _ _ => (ih (n + 1) s' _).imp fun out hout => ?_
        obtain ⟨front, hgiven, hagain, hle, hspent⟩ := hout
        refine ⟨.error e :: front, by simpa using hgiven, ?_, by simpa using hle, fun h => ?_⟩
        · exact List.forall_mem_cons.2 ⟨⟨e, rfl, he⟩, hagain⟩
        · rw [List.length_cons, hspent h]
      · rename_i he
        exact hfinal _ (by simp [Again, he])

/-- Results of which all but the last are worth another attempt end at the first that is final, or
where no attempt was left. -/
theorem length_eq_firstFinal {results : ℕ → Except HostError α} {front : List (Except HostError α)}
    {last : Except HostError α} {left : Nat}
    (hresults : ∀ i r, (front ++ [last])[i]? = some r → r = results i) (hagain : ∀ r ∈ front, Again r)
    (hle : front.length ≤ left) (hspent : Again last → front.length = left) :
    ((front.length + 1 : ℕ) : ℕ∞) = min (firstFinal results) ((left + 1 : ℕ) : ℕ∞) := by
  have hlast : last = results front.length := hresults _ _ (by simp)
  have hfront : ∀ i, i < front.length → Again (results i) := by
    intro i hi
    have hget : (front ++ [last])[i]? = some front[i] := by
      rw [List.getElem?_append_left hi, List.getElem?_eq_getElem hi]
    rw [← hresults i _ hget]
    exact hagain _ (List.getElem_mem hi)
  refine le_antisymm (le_min (le_iInf₂ fun i hi => ?_) ?_) ?_
  · -- a final result is not among those that were worth another attempt
    have hge : front.length ≤ i := by
      by_contra hlt
      exact hi (hfront i (by omega))
    exact_mod_cast Nat.succ_le_succ hge
  · exact_mod_cast Nat.succ_le_succ hle
  · by_cases hr : Again last
    · rw [hspent hr]
      exact min_le_right _ _
    · refine (min_le_left _ _).trans (iInf₂_le front.length ?_)
      rwa [Set.mem_ofPred_eq, ← hlast]

/-- **How often an operation is called.** The loop numbers every attempt, and is the attempts that are
made. Whatever the operation gives at its calls, all but the last of these were unreachable, the last
one is what is returned, and the operation was called until it gave a final result, if the policy
allowed that many attempts, or else as often as the policy allowed; but always once. -/
theorem loop_calls (policy : Retry) (hmax : policy.maxAttempts < 2 ^ 32)
    (op : σ → Effects (Except HostError α × σ)) (s : σ) :
    policy.loop op s = some <$> policy.attempts op s ∧
    policy.attempts op s = (fun out => (out.1, out.2.1)) <$> policy.attempts (noting op) (s, []) ∧
    (policy.loop (noting op) (s, [])).Returns fun out => ∃ r s' given, out = some (r, s', given) ∧
      given.getLast? = some r ∧
      (∀ earlier ∈ given.dropLast, ∃ e, earlier = .error e ∧ e.kind = .unreachable) ∧
      ∀ results : ℕ → Except HostError α, (∀ i r, given[i]? = some r → r = results i) →
        (given.length : ℕ∞) = min (firstFinal results) (max 1 policy.maxAttempts : ℕ) := by
  refine ⟨loop_eq policy hmax op s, attemptsFrom_noting policy op _ 1 s [], ?_⟩
  rw [loop_eq policy hmax]
  refine (returns_noting op (policy.maxAttempts - 1) 1 s []).map fun out hout => ?_
  obtain ⟨r, s', given⟩ := out
  obtain ⟨front, hgiven, hagain, hle, hspent⟩ := hout
  obtain rfl : given = front ++ [r] := hgiven
  refine ⟨r, s', _, rfl, ?_, fun earlier hearlier => ?_, fun results hresults => ?_⟩
  · rw [List.getLast?_concat]
  · rw [List.dropLast_concat] at hearlier
    obtain ⟨e, rfl, he⟩ := hagain earlier hearlier
    obtain ⟨reason, rfl⟩ := HostError.isTransient_iff.1 he
    exact ⟨_, rfl, rfl⟩
  · have hlength := length_eq_firstFinal hresults hagain hle hspent
    have hbudget : policy.maxAttempts - 1 + 1 = max 1 policy.maxAttempts := by omega
    rw [hbudget] at hlength
    simpa using hlength

/-- What is given by a unit that cannot be reached twice, and then is masked. -/
def masked (i : ℕ) : Except HostError Unit :=
  if i < 2 then .error (.unreachable "method call timed out")
  else .error (.rejected "web.service" "start" "masked")

/-- The third call is the last one, though five are allowed. -/
theorem loop_calls_masked : (Retry.immediate 5).maxAttempts < 2 ^ 32 ∧
    ((Retry.immediate 5).loop (noting fun i => .done (masked i, i + 1)) (0, [])).Reaches
      (fun s _ _ t => t = s) () (.done (some (masked 2, 3, [masked 0, masked 1, masked 2]))) () ∧
    (3 : ℕ∞) = min (firstFinal masked) 5 := by
  have hmax : (Retry.immediate 5).maxAttempts < 2 ^ 32 := by decide
  obtain ⟨-, -, hcalls⟩ := loop_calls (Retry.immediate 5) hmax (fun i => .done (masked i, i + 1)) 0
  have hreaches : ((Retry.immediate 5).loop (noting fun i => .done (masked i, i + 1)) (0, [])).Reaches
      (fun s _ _ t => t = s) () (.done (some (masked 2, 3, [masked 0, masked 1, masked 2]))) () := by
    rw [loop_eq _ hmax]
    exact .ask (x := ()) rfl (.ask (x := ()) rfl (.here _ _))
  obtain ⟨r, s', given, hout, -, -, hlength⟩ := ((hcalls.ensures ()).sound hreaches).2
  obtain rfl : [masked 0, masked 1, masked 2] = given := by
    injection hout with hout
    injection hout with _ hout
    injection hout
  refine ⟨hmax, hreaches, hlength masked fun i r hr => ?_⟩
  rcases i with _ | _ | _ | i
  · exact (Option.some.inj hr).symm
  · exact (Option.some.inj hr).symm
  · exact (Option.some.inj hr).symm
  · cases hr

end Provision.Retry
