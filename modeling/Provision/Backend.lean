import Provision.Effect
import Provision.Layout
import Provision.Live.Host
import Provision.Mock.Host
import Provision.Settings
import Provision.Store

/-!
# Backends

What a run asks of the world is carried out on the machine the program runs on,
but for the calls to the host, which go to the backend that the settings name:
the live host, or one in memory.

* `Effect.answer`: a request of a run, given what carries out calls to the host.
* `Backend.select`: the backend of a name.
* `Backend.perform`: carry out a run with a backend.
-/

namespace Provision

open SystemCall

/-- Take the lock of a state directory, unless it is held. -/
def Layout.tryLock (layout : Layout) : SystemCalls (Except IoError Bool) := do
  let made ← match layout.lockFile.parent? with
    | some parent => request (.makeDirectories parent)
    | none => .done (.ok ())
  match (made : Except IoError Unit) with
  | .error e => return .error e
  | .ok () => request (.tryLock layout.lockFile)

namespace Effect

/-- Carry out a request of a run: calls to the host by `host`, everything else by
requests to the operating system. -/
def answer {m : Type → Type} (layout : Layout) (host : (c : HostCall) → m c.Reply)
    (system : {α : Type} → SystemCalls α → m α) : (e : Effect) → m e.Reply
  | .host c => host c
  | .resolve paths => system (request (.resolve paths))
  | .pause length => system (request (.pause length))
  | .cancelled => system (request .interrupted)
  | .now => system (request .now)
  | .process => system (request .process)
  | .lock => system layout.tryLock
  | .unlock => system (request (.unlock layout.lockFile))
  | .prepare => system (Store.prepare layout).run
  | .save log => system (Store.save layout log).run
  | .load id => system (Store.load layout id).run
  | .latest => system (Store.latest layout).run

end Effect

/-- Where calls to the host go. -/
inductive Backend where
  | host (live : Live.Host)
  /-- A host in memory on which every unit exists. -/
  | mock

namespace Backend

/-- The name of the backend. -/
def name : Backend → String
  | host _ => "host"
  | mock => "mock"

/-- The backend of a name. -/
def select (name : String) (settings : Settings) : Except HostError Backend :=
  if name = "host" then .ok (.host { timeout := .ofMillis settings.busTimeout })
  else if name = "mock" then .ok .mock
  else .error (.backendUnavailable name)

/-- Carry out a run. The host in memory lasts as long as the run. -/
def perform {α : Type} (layout : Layout) (run : Effects α) : Backend → SystemCalls α
  | host live => run.interpret (Effect.answer layout (Live.call live) id)
  | mock =>
    (·.1) <$> (run.interpret (m := StateT Mock.Host SystemCalls)
      (Effect.answer layout (fun c h => .done (Mock.Host.answer c h)) StateT.lift)).run .lenient

end Backend

end Provision
