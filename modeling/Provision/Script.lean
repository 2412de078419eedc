/-!
# Scripts

A script is a program whose only contact with the world is a request that gets
a typed reply. The vocabulary of requests is an `Interface`; the script itself
is data, so it can be answered by any world, real or made up, and stopped
between any two requests.

* `Script.interpret`: answer every request in a monad.
* `Script.run`: answer every request from a state; the instance for state of
  `interpret`, written out so that it unfolds by `rfl`.
* `Script.upTo`: the part of a script that makes at most `n` requests.
* `run_bind`: running two scripts in a row threads the state.
-/

namespace Provision

/-- A vocabulary of requests, each with the type of its reply. -/
structure Interface where
  Request : Type
  Reply : Request → Type

/-- A program that is finished, or asks and goes on with the reply. -/
inductive Script (I : Interface) (α : Type) : Type where
  | done (a : α)
  | ask (r : I.Request) (k : I.Reply r → Script I α)

namespace Script

variable {I J : Interface} {α β γ σ : Type}

/-- Run the second script on what the first one returns. -/
def bind : Script I α → (α → Script I β) → Script I β
  | .done a, f => f a
  | .ask r k, f => .ask r fun x => (k x).bind f

instance : Monad (Script I) where
  pure := .done
  bind := bind

/-- The script that makes one request and returns the reply. -/
def request (r : I.Request) : Script I (I.Reply r) := .ask r .done

@[simp] theorem pure_eq (a : α) : (pure a : Script I α) = .done a := rfl

@[simp] theorem done_bind (a : α) (f : α → Script I β) : (Script.done a >>= f) = f a := rfl

@[simp] theorem ask_bind (r : I.Request) (k : I.Reply r → Script I α) (f : α → Script I β) :
    (Script.ask r k >>= f) = .ask r fun x => k x >>= f := rfl

theorem bind_done (s : Script I α) : (s >>= Script.done) = s := by
  induction s with
  | done a => rfl
  | ask r k ih => simp only [ask_bind, ih]

theorem bind_assoc (s : Script I α) (f : α → Script I β) (g : β → Script I γ) :
    ((s >>= f) >>= g) = (s >>= fun a => f a >>= g) := by
  induction s with
  | done a => rfl
  | ask r k ih => simp only [ask_bind, ih]

instance : LawfulMonad (Script I) :=
  LawfulMonad.mk' (Script I) bind_done (fun _ _ => rfl) bind_assoc

/-- Answer every request of a script in a monad. -/
def interpret {m : Type → Type} [Monad m] (answer : (r : I.Request) → m (I.Reply r)) :
    Script I α → m α
  | .done a => pure a
  | .ask r k => answer r >>= fun x => (k x).interpret answer

/-- Answer every request of a script from a state, in order. -/
def run (answer : (r : I.Request) → σ → I.Reply r × σ) : Script I α → σ → α × σ
  | .done a, s => (a, s)
  | .ask r k, s => (k (answer r s).1).run answer (answer r s).2

/-- The part of a script that makes at most `n` requests: `none` when it would
ask once more. -/
def upTo : Nat → Script I α → Script I (Option α)
  | _, .done a => .done (some a)
  | 0, .ask _ _ => .done none
  | n + 1, .ask r k => .ask r fun x => (k x).upTo n

variable (answer : (r : I.Request) → σ → I.Reply r × σ)

@[simp] theorem run_done (a : α) (s : σ) : (Script.done a).run answer s = (a, s) := rfl

@[simp] theorem run_ask (r : I.Request) (k : I.Reply r → Script I α) (s : σ) :
    (Script.ask r k).run answer s = (k (answer r s).1).run answer (answer r s).2 := rfl

@[simp] theorem run_request (r : I.Request) (s : σ) : (request r).run answer s = answer r s := rfl

/-- Running two scripts in a row threads the state. -/
@[simp] theorem run_bind (p : Script I α) (f : α → Script I β) (s : σ) :
    (p >>= f).run answer s = (f (p.run answer s).1).run answer (p.run answer s).2 := by
  induction p generalizing s with
  | done a => rfl
  | ask r k ih => simp only [ask_bind, run_ask, ih]

end Script

end Provision
