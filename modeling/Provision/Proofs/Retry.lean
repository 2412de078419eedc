import Provision.Proofs.Script.Reach
import Provision.Retry

/-!
# What retrying ensures

* `Retry.ensures_attempts_paused`: what one attempt ensures from any state that a failed
  attempt and the pause after it can leave, all attempts ensure.
* `Retry.ensures_attempts`: the same where a pause changes nothing.
* `Retry.ensures_repeating`: the same for an operation that learns nothing.
* `Retry.returns_attempts_from`: what each attempt can return, all attempts can.
* `Retry.run_attempts`: an operation whose first attempt is final is attempted once.
-/

namespace Provision.Retry

open Script

variable {σ τ α : Type} {w : Setting Effect.interface τ} {always : τ → Prop}

/-- **Attempts**: only a failed attempt that is worth another one has to leave what the
next one starts from, after the pause. -/
theorem ensures_attempts_paused (policy : Retry) (inv : σ → τ → Prop)
    (post : Except HostError α × σ → τ → Prop) {op : σ → Effects (Except HostError α × σ)}
    (hop : ∀ k s, inv k s → (op k).Ensures w always (fun r s => post r s ∧
      ∀ e, r.1 = .error e → e.isTransient → ∀ d x s', w s (.pause d) x s' → always s' ∧ inv r.2 s') s)
    {k : σ} {s : τ} (h : inv k s) : (policy.attempts op k).Ensures w always post s := by
  suffices hall : ∀ left n k s, inv k s → (policy.attemptsFrom op left n k).Ensures w always post s from
    hall _ _ _ _ h
  intro left
  induction left with
  | zero =>
    intro n k s h
    exact (hop k s h).imp fun _ _ _ hr => hr.1
  | succ left ih =>
    intro n k s h
    unfold attemptsFrom
    refine ensures_bind.2 ((hop k s h).imp ?_)
    rintro ⟨e | a, k'⟩ t ht ⟨hpost, hagain⟩
    · by_cases he : e.isTransient = true
      · dsimp only
        rw [if_pos he]
        refine ensures_bind.2 ((ensures_request t).2 ⟨ht, fun x t' hx => ?_⟩)
        obtain ⟨ht', hinv⟩ := hagain e rfl he _ x t' hx
        exact ⟨ht', ih _ _ _ hinv⟩
      · dsimp only
        rw [if_neg he]
        exact ⟨ht, hpost⟩
    · exact ⟨ht, hpost⟩

/-- The pause changes nothing, so the next attempt starts from what this one left. -/
theorem ensures_attempts (policy : Retry) (inv : σ → τ → Prop)
    (post : Except HostError α × σ → τ → Prop) (hpause : ∀ s d x s', w s (.pause d) x s' → s' = s)
    {op : σ → Effects (Except HostError α × σ)}
    (hop : ∀ k s, inv k s → (op k).Ensures w always (fun r s =>
      post r s ∧ ∀ e, r.1 = .error e → e.isTransient → inv r.2 s) s)
    {k : σ} {s : τ} (h : inv k s) : (policy.attempts op k).Ensures w always post s := by
  refine policy.ensures_attempts_paused inv post (fun k s hk => (hop k s hk).imp ?_) h
  rintro r t ht ⟨hpost, hagain⟩
  refine ⟨hpost, fun e he htransient d x t' hx => ?_⟩
  obtain rfl := hpause _ _ _ _ hx
  exact ⟨ht, hagain e he htransient⟩

/-- **Repeating** an operation that learns nothing. -/
theorem ensures_repeating (policy : Retry) (inv : τ → Prop)
    (hpause : ∀ s d x s', w s (.pause d) x s' → s' = s) {op : Effects (Except HostError α)}
    {post : Except HostError α → τ → Prop}
    (hop : ∀ s, inv s → op.Ensures w always (fun r s =>
      post r s ∧ ∀ e, r = .error e → e.isTransient → inv s) s)
    {s : τ} (h : inv s) : (policy.repeating op).Ensures w always post s := by
  refine ensures_map.2 (policy.ensures_attempts (fun _ s => inv s)
    (fun r s => post r.1 s) hpause (fun k s hs => ?_) h)
  exact ensures_map.2 (hop s hs)

/-- **What each attempt can return, all attempts can**: only a failed attempt that is worth another
one has to hand on what the next one starts from. -/
theorem returns_attempts_from (policy : Retry) (inv : σ → Prop)
    {op : σ → Effects (Except HostError α × σ)} {Q : Except HostError α × σ → Prop}
    (hop : ∀ k, inv k → (op k).Returns fun r => Q r ∧ ∀ e, r.1 = .error e → e.isTransient → inv r.2)
    {k : σ} (hk : inv k) : (policy.attempts op k).Returns Q := by
  suffices hall : ∀ left n k, inv k → (policy.attemptsFrom op left n k).Returns Q from hall _ _ _ hk
  intro left
  induction left with
  | zero => exact fun _ k hk => (hop k hk).imp fun _ hr => hr.1
  | succ left ih =>
    intro n k hk
    refine (hop k hk).bind ?_
    rintro ⟨e | a, k'⟩ ⟨hr, hagain⟩
    · by_cases he : e.isTransient = true
      · dsimp only
        rw [if_pos he]
        exact (returns_any _).bind fun _ _ => ih _ _ (hagain e rfl he)
      · dsimp only
        rw [if_neg he]
        exact hr
    · exact hr

theorem returns_attempts (policy : Retry) {op : σ → Effects (Except HostError α × σ)}
    {Q : Except HostError α × σ → Prop} (hop : ∀ k, (op k).Returns Q) (k : σ) :
    (policy.attempts op k).Returns Q :=
  policy.returns_attempts_from (fun _ => True)
    (fun k _ => (hop k).imp fun _ hr => ⟨hr, fun _ _ _ => trivial⟩) trivial

/-- An operation whose first attempt is not worth another one is attempted once. -/
theorem run_attempts (policy : Retry) (answer : (e : Effect) → τ → e.Reply × τ)
    {op : σ → Effects (Except HostError α × σ)} {k : σ} {s : τ}
    (hfinal : ∀ e, ((op k).run answer s).1.1 = .error e → e.isTransient = false) :
    (policy.attempts op k).run answer s = (op k).run answer s := by
  unfold attempts
  cases policy.maxAttempts - 1 with
  | zero => rfl
  | succ left =>
    unfold attemptsFrom
    rw [run_bind]
    generalize (op k).run answer s = out at hfinal
    obtain ⟨⟨e | a, k'⟩, s'⟩ := out
    · dsimp only
      rw [if_neg (by simp [hfinal e rfl])]
      rfl
    · rfl

theorem run_repeating (policy : Retry) (answer : (e : Effect) → τ → e.Reply × τ)
    {op : Effects (Except HostError α)} {s : τ}
    (hfinal : ∀ e, (op.run answer s).1 = .error e → e.isTransient = false) :
    (policy.repeating op).run answer s = op.run answer s := by
  unfold repeating
  rw [run_map, policy.run_attempts answer, run_map]
  rw [run_map]
  exact hfinal

end Provision.Retry
