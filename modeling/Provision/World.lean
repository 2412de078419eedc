import Provision.Backend
import Provision.Machine
import Provision.Mock.Rehearsal

/-!
# Worlds in memory

A machine in memory and a host in memory answer everything a run asks for, so a
run can be carried out, watched and repeated without touching anything.

* `World.perform`: carry out a run.
* `World.system`: carry out requests to the operating system.
-/

namespace Provision

/-- A machine and a host in memory. -/
structure World where
  machine : Machine := {}
  rehearsal : Mock.Rehearsal := {}

namespace World

/-- Carry out requests to the operating system. -/
def system {α : Type} (script : SystemCalls α) : StateM World α := fun w =>
  let (a, machine) := script.run Machine.answer w.machine
  (a, { w with machine })

/-- The reply to a call to the host. -/
def call (c : HostCall) : StateM World c.Reply := fun w =>
  let (reply, rehearsal) := w.rehearsal.answer c
  (reply, { w with rehearsal })

/-- The reply to a request of a run. Whether the operator wants to stop is up to
the rehearsal. -/
def answer (layout : Layout) : (e : Effect) → StateM World e.Reply
  | .cancelled => fun w => (w.rehearsal.stopping, w)
  | e => Effect.answer layout call system e

/-- Carry out a run. -/
def perform {α : Type} (layout : Layout) (run : Effects α) : StateM World α :=
  run.interpret (answer layout)

end World

end Provision
