import Provision.Run.Registry

/-!
# Ordering steps by counting

The order of `Registry.plan`, found without looking at every step again and
again: for each step the dependencies that have not been placed are counted,
and placing a step counts down the steps that follow it. A step is ready when
its count is zero. Steps are told apart by their place in the registry.

What could go wrong on the way is an error of its own: a place that is out of
range, a count that would fall below zero, a loop that does not end.

* `Countdown.tally`: count the dependencies.
* `Countdown.drain`: place the steps that are ready, the first one first.
* `Countdown.onCycle`: the steps that others among the remaining ones need.
* `Registry.planByCounting`: the order.
-/

namespace Provision

namespace Countdown

/-- Why there is no order. All but the first are faults of the computation itself. -/
inductive Stop where
  | refused (error : RunError)
  | outOfRange (place : Nat)
  | belowZero (place : Nat)
  | endless
deriving DecidableEq, Inhabited, Repr

variable {α : Type}

/-- The element at a place. -/
def fetch (xs : List α) (i : Nat) : Except Stop α := xs[i]?.elim (.error (.outOfRange i)) .ok

/-- Change the element at a place. -/
def change (xs : List α) (i : Nat) (f : α → α) : Except Stop (List α) :=
  if i < xs.length then .ok (xs.modify i f) else .error (.outOfRange i)

/-- One less at a place. -/
def decrement (counts : List Nat) (i : Nat) : Except Stop (List Nat) := do
  if (← fetch counts i) = 0 then .error (.belowZero i) else change counts i (· - 1)

/-- Add a place to places in ascending order, unless it is one of them. -/
def enqueue (i : Nat) : List Nat → List Nat
  | [] => [i]
  | j :: rest =>
    if i < j then i :: j :: rest else if i = j then j :: rest else j :: enqueue i rest

/-- For each step, how many dependencies it waits for, and the steps that wait for it: once for
each time they name it. -/
structure Tally where
  counts : List Nat
  followers : List (List Nat)

/-- Each step with its place and one of its dependencies, in order. -/
def dependencies (r : Registry) : List (Step × Nat × String) :=
  r.steps.zipIdx.flatMap fun (step, i) => step.dependsOn.map (step, i, ·)

/-- Count one dependency. -/
def count (r : Registry) (tally : Tally) : Step × Nat × String → Except Stop Tally
  | (step, i, d) =>
    match r.index? d with
    | none => .error (.refused (.unknownDependency step.id d))
    | some j => do
      let counts ← change tally.counts i (· + 1)
      let followers ← change tally.followers j (· ++ [i])
      .ok { counts, followers }

/-- Count the dependencies of every step. -/
def tally (r : Registry) : Except Stop Tally :=
  (dependencies r).foldlM (count r)
    { counts := .replicate r.steps.length 0, followers := .replicate r.steps.length [] }

/-- The dependencies that are left, the steps that are ready, and the steps that have been placed. -/
structure Stand where
  counts : List Nat
  ready : List Nat
  order : List Nat

/-- A step that another one waited for has been placed. -/
def release (stand : Stand) (i : Nat) : Except Stop Stand := do
  let counts ← decrement stand.counts i
  let ready := if (← fetch counts i) = 0 then enqueue i stand.ready else stand.ready
  .ok { stand with counts, ready }

/-- Place the first step that is ready until there is none, at most `n` times. -/
def drain (followers : List (List Nat)) : Nat → Stand → Except Stop Stand
  | n, stand =>
    match stand.ready with
    | [] => .ok stand
    | i :: ready =>
      match n with
      | 0 => .error .endless
      | n + 1 => do
        let placed := { stand with ready, order := stand.order ++ [i] }
        drain followers n (← (← fetch followers i).foldlM release placed)

/-- Whether a step that is marked depends on a name. -/
def isNeeded (r : Registry) (marks : List Bool) (id : String) : Except Stop Bool :=
  r.steps.zipIdx.anyM fun (other, j) => do
    return (← fetch marks j) && other.dependsOn.contains id

/-- Take the mark off a step that no marked step depends on. Whether one was taken off is passed on. -/
def unmark (r : Registry) (state : List Bool × Bool) (i : Nat) : Except Stop (List Bool × Bool) := do
  if ← fetch state.1 i then
    let step ← fetch r.steps i
    if ← isNeeded r state.1 step.id then .ok state
    else .ok (← change state.1 i fun _ => false, true)
  else .ok state

/-- Take marks off until every marked step is needed by a marked one, in at most `n` rounds. -/
def settle (r : Registry) : Nat → List Bool → Except Stop (List Bool)
  | 0, _ => .error .endless
  | n + 1, marks => do
    let (marks, changed) ← (List.range r.steps.length).foldlM (unmark r) (marks, false)
    if changed then settle r n marks else .ok marks

/-- The marked steps, in order. -/
def marked (r : Registry) (marks : List Bool) : List Step :=
  (r.steps.zip marks).filterMap fun (step, mark) => if mark then some step else none

/-- The names of the steps that are left when those are pruned that only wait. -/
def onCycle (r : Registry) (counts : List Nat) : Except Stop (List String) := do
  let marks ← settle r (r.steps.length + 1) (counts.map (0 < ·))
  .ok ((marked r marks).map (·.id))

end Countdown

open Countdown in
/-- The order in which the steps run, found by counting. -/
def Registry.planByCounting (r : Registry) : Except Stop RunPlan := do
  let n := r.steps.length
  let tally ← tally r
  let ready ← (List.range n).filterM fun i => return (← fetch tally.counts i) = 0
  let stand ← drain tally.followers n { counts := tally.counts, ready, order := [] }
  if stand.order.length < n then .error (.refused (.cycle (← onCycle r stand.counts)))
  else return ⟨← stand.order.mapM (fetch r.steps)⟩

end Provision
