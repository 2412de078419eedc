import Provision.Backend
import Provision.Cli.Arguments
import Provision.Cli.Output
import Provision.Plan.Codec
import Provision.Run.Orchestrator

/-!
# What a command works with

The settings, where the state directory is, and how to write. Nothing is looked
up before it is needed: a backend that does not exist stops only the commands
that touch the host.

* `Context.load`: from the options of every command and the environment.
* `Context.carryOut`: do something with the backend of the settings.
* `Cli.loadRegistry`: the steps of a plan file.
-/

namespace Provision.Cli

/-- What a command works with. -/
structure Context where
  settings : Settings
  stateDir : Path
  json : Bool
deriving DecidableEq, Inhabited, Repr

namespace Context

/-- The settings of a file, or what is set when there is none. -/
def loadSettings (file : Path) : Commanding Settings := do
  let isThere : Bool ← ask (.pathExists file)
  if isThere then
    let text ← settled (.settings ∘ .io) (SystemCall.request (.readText file))
    decided .settings (Settings.parse text)
  else return {}

/-- What a command works with. -/
def load (options : Globals) : Commanding Context := do
  let settings ← loadSettings options.config
  let environment ← ask (.environment Settings.stateDirVariable)
  return ⟨settings, settings.stateDir options.stateDir environment, options.json⟩

/-- Where run logs are kept. -/
def layout (c : Context) : Layout := ⟨c.stateDir⟩

/-- How runs are carried out. -/
def orchestrator (c : Context) : Orchestrator := ⟨c.layout, c.settings.retryPolicy⟩

/-- The backend of the settings. -/
def backend (c : Context) : Except HostError Backend := Backend.select c.settings.backend c.settings

/-- Do something with the backend. -/
def carryOut {α : Type} (c : Context) (backend : Backend) (act : Orchestrator.Running α) :
    Commanding α :=
  settled .run (backend.perform c.layout act.run)

end Context

/-- The steps of a plan file. -/
def loadRegistry (file : Path) : Commanding Registry := do
  let text ← settled (.run ∘ .plan ∘ .io) (SystemCall.request (.readText file))
  let plan ← decided (.run ∘ .plan) (PlanFile.parse text)
  decided .run (Registry.ofPlanFile plan)

end Provision.Cli
