import Provision.Script

/-!
# What a script can come to

A script that is answered by a world which is not fixed in advance: a setting
says which replies a request may get and what becomes of the world.

* `Script.Reaches`: what is left of a script, and the world, after some of its
  requests. A script that is left over may be stopped there for good.
* `reaches_bind_iff`: where scripts in a row come to an end.
* `Script.Via`: what it comes to by way of a request of which something is said.
* `Script.walk`: the same in a world that answers by a function, for fixed inputs.
* `Script.Ensures`: an invariant at every point where a script may be stopped,
  and a postcondition where it ends.
* `Ensures.sound`: what a script ensures holds of all that it reaches.
* `ensures_bind`: scripts in a row, one rule.
* `Script.Only`, `Script.Returns`: the requests that a script can make at all, and what it
  can return.
* `Ensures.comap`: what is ensured of a part of the world is ensured of the world.
-/

namespace Provision

/-- Which replies a request may get, and what may become of the world. -/
abbrev Setting (I : Interface) (σ : Type) : Type :=
  σ → (r : I.Request) → I.Reply r → σ → Prop

namespace Script

variable {I : Interface} {α β ε σ τ : Type}

/-- What may be left of a script, and the world it may have come to, after some
of its requests. -/
inductive Reaches (w : Setting I σ) : Script I α → σ → Script I α → σ → Prop
  | here (p : Script I α) (s : σ) : Reaches w p s p s
  | ask {r : I.Request} {k : I.Reply r → Script I α} {s s' t : σ} {x : I.Reply r} {q : Script I α} :
      w s r x s' → Reaches w (k x) s' q t → Reaches w (.ask r k) s q t

/-- An invariant at every point where a script may be stopped, the first and the
last one included, and a postcondition where it ends. -/
def Ensures (w : Setting I σ) (always : σ → Prop) (post : α → σ → Prop) : Script I α → σ → Prop
  | .done a, s => always s ∧ post a s
  | .ask r k, s => always s ∧ ∀ x s', w s r x s' → (k x).Ensures w always post s'

variable {w w' : Setting I σ} {always always' : σ → Prop} {post post' : α → σ → Prop}

theorem Reaches.trans {p q r : Script I α} {s t u : σ} (h : p.Reaches w s q t)
    (h' : q.Reaches w t r u) : p.Reaches w s r u := by
  induction h with
  | here => exact h'
  | ask hx _ ih => exact .ask hx (ih h')

/-- The first of two scripts goes on as it does alone. -/
theorem Reaches.bind_left {p q : Script I α} {s t : σ} (h : p.Reaches w s q t) (f : α → Script I β) :
    (p >>= f).Reaches w s (q >>= f) t := by
  induction h with
  | here => exact .here _ _
  | ask hx _ ih => exact .ask hx ih

/-- A script comes to `q`, and on its way makes a request in a world which that is said of. -/
def Via (w : Setting I σ) (here : I.Request → σ → Prop) (p : Script I α) (s : σ) (q : Script I α) (u : σ) :
    Prop :=
  ∃ (r : I.Request) (k : I.Reply r → Script I α) (t : σ),
    p.Reaches w s (.ask r k) t ∧ here r t ∧ (Script.ask r k).Reaches w t q u

section Via

variable {here here' : I.Request → σ → Prop} {p q q' : Script I α} {s t u : σ}

theorem Via.reaches (h : p.Via w here s q u) : p.Reaches w s q u := by
  obtain ⟨r, k, t, hr, -, hr'⟩ := h
  exact hr.trans hr'

theorem Reaches.via (h : p.Reaches w s q t) (h' : q.Via w here t q' u) : p.Via w here s q' u := by
  obtain ⟨r, k, v, hr, hhere, hr'⟩ := h'
  exact ⟨r, k, v, h.trans hr, hhere, hr'⟩

theorem Via.trans (h : p.Via w here s q t) (h' : q.Reaches w t q' u) : p.Via w here s q' u := by
  obtain ⟨r, k, v, hr, hhere, hr'⟩ := h
  exact ⟨r, k, v, hr, hhere, hr'.trans h'⟩

theorem Via.bind_left (h : p.Via w here s q u) (f : α → Script I β) :
    (p >>= f).Via w here s (q >>= f) u := by
  obtain ⟨r, k, t, hr, hhere, hr'⟩ := h
  exact ⟨r, fun x => k x >>= f, t, hr.bind_left f, hhere, hr'.bind_left f⟩

theorem Via.imp (h : p.Via w here s q u)
    (himp : ∀ r k t, p.Reaches w s (.ask r k) t → here r t → here' r t) : p.Via w here' s q u := by
  obtain ⟨r, k, t, hr, hhere, hr'⟩ := h
  exact ⟨r, k, t, hr, himp r k t hr hhere, hr'⟩

/-! A script that may fail goes on when it has not failed. -/

variable {p : ExceptT ε (Script I) α} {f : α → ExceptT ε (Script I) β} {q : Script I (Except ε β)} {a : α}

theorem Reaches.bindE (h : p.run.Reaches w s (.done (.ok a)) t) (h' : (f a).run.Reaches w t q u) :
    (p >>= f).run.Reaches w s q u :=
  (h.bind_left fun r => ExceptT.bindCont f r).trans h'

theorem Via.bindE (h : p.run.Via w here s (.done (.ok a)) t) (h' : (f a).run.Reaches w t q u) :
    (p >>= f).run.Via w here s q u :=
  (h.bind_left fun r => ExceptT.bindCont f r).trans h'

theorem Reaches.bindE_via (h : p.run.Reaches w s (.done (.ok a)) t) (h' : (f a).run.Via w here t q u) :
    (p >>= f).run.Via w here s q u :=
  (h.bind_left fun r => ExceptT.bindCont f r).via h'

theorem Reaches.liftE {p : Script I α} (h : p.Reaches w s (.done a) t) :
    (liftM p : ExceptT ε (Script I) α).run.Reaches w s (.done (.ok a)) t :=
  h.bind_left _

theorem Via.liftE {p : Script I α} (h : p.Via w here s (.done a) t) :
    (liftM p : ExceptT ε (Script I) α).run.Via w here s (.done (.ok a)) t :=
  h.bind_left _

end Via

/-- What is left of a script after some requests to a world that answers by a function,
unless it came to an answer that is not to be admitted. -/
def walk (answer : (r : I.Request) → σ → I.Reply r × σ) (admits : (r : I.Request) → σ → Bool) :
    Nat → Script I α → σ → Option (Script I α × σ)
  | 0, p, s => some (p, s)
  | _ + 1, .done a, s => some (.done a, s)
  | n + 1, .ask r k, s =>
    if admits r s then walk answer admits n (k (answer r s).1) (answer r s).2 else none

/-- What a script returns is changed where it ends. -/
theorem run_map (answer : (r : I.Request) → σ → I.Reply r × σ) (p : Script I α) (f : α → β) (s : σ) :
    (f <$> p).run answer s = (f (p.run answer s).1, (p.run answer s).2) := by
  rw [map_eq_pure_bind, run_bind]
  rfl

/-- Where every request gets some reply a script comes to an end. -/
theorem exists_reaches_done (hw : ∀ s r, ∃ x s', w s r x s') (p : Script I α) (s : σ) :
    ∃ a t, p.Reaches w s (.done a) t := by
  induction p generalizing s with
  | done a => exact ⟨a, s, .here _ _⟩
  | ask r k ih =>
    obtain ⟨x, s', hx⟩ := hw s r
    obtain ⟨a, t, hr⟩ := ih x s'
    exact ⟨a, t, .ask hx hr⟩

/-- Where a script comes to in a world that answers by a function it can come to. -/
theorem Reaches.of_walk {answer : (r : I.Request) → σ → I.Reply r × σ}
    {admits : (r : I.Request) → σ → Bool}
    (hw : ∀ s r, admits r s = true → w s r (answer r s).1 (answer r s).2) {n : Nat} {p q : Script I α}
    {s t : σ} (h : p.walk answer admits n s = some (q, t)) : p.Reaches w s q t := by
  -- each request of the walk is one that the script makes
  induction n generalizing p s with
  | zero =>
    obtain ⟨rfl, rfl⟩ := Prod.mk.inj (Option.some.inj h)
    exact .here _ _
  | succ n ih =>
    cases p with
    | done a =>
      obtain ⟨rfl, rfl⟩ := Prod.mk.inj (Option.some.inj h)
      exact .here _ _
    | ask r k =>
      unfold walk at h
      split at h
      · rename_i hadmits
        exact .ask (hw s r hadmits) (ih h)
      · cases h

theorem ensures_request {r : I.Request} {post : I.Reply r → σ → Prop} (s : σ) :
    (request r).Ensures w always post s ↔
      always s ∧ ∀ x s', w s r x s' → always s' ∧ post x s' := Iff.rfl

/-- The invariant holds where a script starts. -/
theorem Ensures.now {p : Script I α} {s : σ} (h : p.Ensures w always post s) : always s := by
  cases p with
  | done a => exact h.1
  | ask r k => exact h.1

/-- **What a script ensures holds of all that it reaches.** -/
theorem Ensures.sound {p q : Script I α} {s t : σ} (h : p.Ensures w always post s)
    (hr : p.Reaches w s q t) : q.Ensures w always post t := by
  induction hr with
  | here => exact h
  | ask hx _ ih => exact ih (h.2 _ _ hx)

/-- A weaker invariant and a weaker postcondition, in a setting that allows less
as long as the invariant holds. -/
theorem Ensures.mono {p : Script I α} {s : σ} (h : p.Ensures w always post s)
    (hw : ∀ s r x s', always s → w' s r x s' → w s r x s')
    (ha : ∀ s, always s → always' s) (hp : ∀ a s, always s → post a s → post' a s) :
    p.Ensures w' always' post' s := by
  induction p generalizing s with
  | done a => exact ⟨ha _ h.1, hp _ _ h.1 h.2⟩
  | ask r k ih => exact ⟨ha _ h.1, fun x s' hx => ih x (h.2 x s' (hw _ _ _ _ h.1 hx))⟩

theorem Ensures.imp {p : Script I α} {s : σ} (h : p.Ensures w always post s)
    (hp : ∀ a s, always s → post a s → post' a s) : p.Ensures w always post' s :=
  h.mono (fun _ _ _ _ _ hx => hx) (fun _ ha => ha) hp

/-- What is ensured in two ways is ensured together. -/
theorem Ensures.and {p : Script I α} {s : σ} (h : p.Ensures w always post s)
    (h' : p.Ensures w always' post' s) :
    p.Ensures w (fun s => always s ∧ always' s) (fun a s => post a s ∧ post' a s) s := by
  induction p generalizing s with
  | done a => exact ⟨⟨h.1, h'.1⟩, h.2, h'.2⟩
  | ask r k ih => exact ⟨⟨h.1, h'.1⟩, fun x s' hx => ih x (h.2 x s' hx) (h'.2 x s' hx)⟩

/-- **Scripts in a row**: the first one ensures that the second one ensures what
both are to ensure. -/
theorem ensures_bind {p : Script I α} {f : α → Script I β} {post : β → σ → Prop} {s : σ} :
    (p >>= f).Ensures w always post s ↔
      p.Ensures w always (fun a s => (f a).Ensures w always post s) s := by
  induction p generalizing s with
  | done a => exact ⟨fun h => ⟨h.now, h⟩, fun h => h.2⟩
  | ask r k ih =>
    exact ⟨fun h => ⟨h.1, fun x s' hx => (ih x).1 (h.2 x s' hx)⟩,
      fun h => ⟨h.1, fun x s' hx => (ih x).2 (h.2 x s' hx)⟩⟩

theorem ensures_map {p : Script I α} {f : α → β} {post : β → σ → Prop} {s : σ} :
    (f <$> p).Ensures w always post s ↔ p.Ensures w always (fun a s => post (f a) s) s := by
  rw [map_eq_pure_bind, ensures_bind]
  exact ⟨fun h => h.imp fun _ _ _ hp => hp.2, fun h => h.imp fun _ _ ha hp => ⟨ha, hp⟩⟩

/-! ### Scripts that may fail -/

/-- A postcondition for a result, and one for an error. -/
def onResult (post : α → σ → Prop) (failed : ε → σ → Prop) : Except ε α → σ → Prop
  | .ok a, s => post a s
  | .error e, s => failed e s

@[simp] theorem onResult_ok {post : α → σ → Prop} {failed : ε → σ → Prop} (a : α) (s : σ) :
    onResult post failed (.ok a) s ↔ post a s := Iff.rfl

@[simp] theorem onResult_error {post : α → σ → Prop} {failed : ε → σ → Prop} (e : ε) (s : σ) :
    onResult post failed (.error e) s ↔ failed e s := Iff.rfl

/-- Scripts in a row of which the first one may fail and end both. -/
theorem ensures_bindE {p : ExceptT ε (Script I) α} {f : α → ExceptT ε (Script I) β}
    {post : β → σ → Prop} {failed : ε → σ → Prop} {s : σ} :
    (p >>= f).run.Ensures w always (onResult post failed) s ↔
      p.run.Ensures w always
        (onResult (fun a s => (f a).run.Ensures w always (onResult post failed) s) failed) s := by
  -- an error of the first script is what both come to
  have hrun : (p >>= f).run = p.run >>= fun r => ExceptT.bindCont f r := rfl
  rw [hrun, ensures_bind]
  constructor
  · intro h
    refine h.imp fun r s ha hr => ?_
    cases r with
    | ok a => exact hr
    | error e => exact hr.2
  · intro h
    refine h.imp fun r s ha hr => ?_
    cases r with
    | ok a => exact hr
    | error e => exact ⟨ha, hr⟩

theorem ensures_liftE {p : Script I α} {post : α → σ → Prop} {failed : ε → σ → Prop} {s : σ} :
    (liftM p : ExceptT ε (Script I) α).run.Ensures w always (onResult post failed) s ↔
      p.Ensures w always post s := by
  show (Except.ok <$> p).Ensures w always _ s ↔ _
  rw [ensures_map]
  exact Iff.rfl

theorem ensures_pureE {a : α} {post : α → σ → Prop} {failed : ε → σ → Prop} {s : σ} :
    (pure a : ExceptT ε (Script I) α).run.Ensures w always (onResult post failed) s ↔
      always s ∧ post a s := Iff.rfl

/-! ### The requests a script can make -/

/-- Every request that a script can make has a property. -/
def Only (P : I.Request → Prop) : Script I α → Prop
  | .done _ => True
  | .ask r k => P r ∧ ∀ x, (k x).Only P

variable {P : I.Request → Prop}

theorem only_request {r : I.Request} (h : P r) : (request r).Only P := ⟨h, fun _ => trivial⟩

theorem only_any (p : Script I α) : p.Only fun _ => True := by
  induction p with
  | done a => trivial
  | ask r k ih => exact ⟨trivial, ih⟩

theorem Only.bind {p : Script I α} {f : α → Script I β} (hp : p.Only P) (hf : ∀ a, (f a).Only P) :
    (p >>= f).Only P := by
  induction p with
  | done a => exact hf a
  | ask r k ih => exact ⟨hp.1, fun x => ih x (hp.2 x)⟩

theorem Only.mono {P' : I.Request → Prop} {p : Script I α} (hp : p.Only P)
    (h : ∀ r, P r → P' r) : p.Only P' := by
  induction p with
  | done a => trivial
  | ask r k ih => exact ⟨h r hp.1, fun x => ih x (hp.2 x)⟩

theorem Only.map {p : Script I α} {f : α → β} (hp : p.Only P) : (f <$> p).Only P := by
  rw [map_eq_pure_bind]; exact hp.bind fun _ => trivial

/-- What each request a script can make preserves, the script preserves. -/
theorem Only.ensures {p : Script I α} (hp : p.Only P)
    (hstep : ∀ s r x s', P r → always s → w s r x s' → always s') {s : σ} (hs : always s) :
    p.Ensures w always (fun _ _ => True) s := by
  induction p generalizing s with
  | done a => exact ⟨hs, trivial⟩
  | ask r k ih => exact ⟨hs, fun x s' hx => ih x (hp.2 x) (hstep _ _ _ _ hp.1 hs hx)⟩

/-! ### What a script can return -/

/-- Whatever a script is answered, what it returns has a property. -/
def Returns (Q : α → Prop) : Script I α → Prop
  | .done a => Q a
  | .ask _ k => ∀ x, (k x).Returns Q

theorem returns_any (p : Script I α) : p.Returns fun _ => True := by
  induction p with
  | done a => trivial
  | ask r k ih => exact ih

theorem Returns.bind {Q : α → Prop} {R : β → Prop} {p : Script I α} {f : α → Script I β}
    (hp : p.Returns Q) (hf : ∀ a, Q a → (f a).Returns R) : (p >>= f).Returns R := by
  induction p with
  | done a => exact hf a hp
  | ask r k ih => exact fun x => ih x (hp x)

/-- What the first script returns is known where the requests of the second one are looked at. -/
theorem Only.bind_returns {Q : α → Prop} {p : Script I α} {f : α → Script I β} (hp : p.Only P)
    (hr : p.Returns Q) (hf : ∀ a, Q a → (f a).Only P) : (p >>= f).Only P := by
  induction p with
  | done a => exact hf a hr
  | ask r k ih => exact ⟨hp.1, fun x => ih x (hp.2 x) (hr x)⟩

theorem Returns.imp {Q R : α → Prop} {p : Script I α} (hp : p.Returns Q) (h : ∀ a, Q a → R a) :
    p.Returns R := by
  induction p with
  | done a => exact h a hp
  | ask r k ih => exact fun x => ih x (hp x)

theorem Returns.map {Q : α → Prop} {R : β → Prop} {p : Script I α} {f : α → β} (hp : p.Returns Q)
    (hf : ∀ a, Q a → R (f a)) : (f <$> p).Returns R := by
  rw [map_eq_pure_bind]
  exact hp.bind hf

theorem Returns.ensures {Q : α → Prop} {p : Script I α} (hp : p.Returns Q) (s : σ) :
    p.Ensures w (fun _ => True) (fun a _ => Q a) s := by
  induction p generalizing s with
  | done a => exact ⟨trivial, hp⟩
  | ask r k ih => exact ⟨trivial, fun x s' _ => ih x (hp x) s'⟩

/-! ### Parts of the world -/

/-- What is ensured of a part of the world is ensured of the world, while what makes it
that part is preserved. -/
theorem Ensures.comap {v : Setting I τ} {f : σ → τ} {keeps : σ → Prop} {always : τ → Prop}
    {post : α → τ → Prop} {p : Script I α} {s : σ} (h : p.Ensures v always post (f s))
    (hp : p.Only P) (hs : keeps s)
    (hstep : ∀ s r x s', P r → keeps s → w s r x s' → v (f s) r x (f s') ∧ keeps s') :
    p.Ensures w (fun s => keeps s ∧ always (f s)) (fun a s => post a (f s)) s := by
  induction p generalizing s with
  | done a => exact ⟨⟨hs, h.1⟩, h.2⟩
  | ask r k ih =>
    refine ⟨⟨hs, h.1⟩, fun x s' hx => ?_⟩
    obtain ⟨hv, hs'⟩ := hstep _ _ _ _ hp.1 hs hx
    exact ih x (h.2 x _ hv) (hp.2 x) hs'

end Script

end Provision
