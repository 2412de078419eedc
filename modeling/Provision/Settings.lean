import Provision.IoError
import Provision.Json.Value
import Provision.Path
import Provision.Retry
import Provision.Toml.Decode
import Provision.Toml.Reader

/-!
# Settings

What the operator may set: the backend, where the state directory is, how often
to retry, and how long to wait for the bus.

* `Settings.parse`: the settings of a text; what is left out has a default.
* `Settings.stateDir`: where the state directory is, from the four places that
  may say so.
* `Settings.retryPolicy`: how to retry.
* `Settings.toJson`: the settings as an object.
-/

namespace Provision

/-- How often to try, and how long to wait in between, in milliseconds. -/
structure RetrySettings where
  maxAttempts : Nat := 4
  initialBackoff : Nat := 500
  maxBackoff : Nat := 8000
deriving DecidableEq, Inhabited, Repr

/-- What the operator may set. -/
structure Settings where
  backend : String := "host"
  stateDir? : Option Path := none
  retry : RetrySettings := {}
  /-- How long a call on the bus may take, in milliseconds. -/
  busTimeout : Nat := 25000
deriving DecidableEq, Inhabited, Repr

/-- Why there are no settings. -/
inductive SettingsError where
  | io (error : IoError)
  | malformed (fault : Toml.Fault)
deriving DecidableEq, Inhabited, Repr

/-- The error in words. -/
def SettingsError.message : SettingsError → String
  | io e => "failed to read settings: " ++ e.message
  | malformed fault => "failed to parse settings: " ++ fault.message

namespace Settings

open Toml

/-- Where the settings are when nothing else is said. -/
def defaultPath : Path := ⟨"/etc/cloyster/settings.toml"⟩

/-- Where the state directory is when nothing else is said. -/
def defaultStateDir : Path := ⟨"/var/lib/cloyster"⟩

/-- The environment variable that names the state directory. -/
def stateDirVariable : String := "CLOYSTER_STATE_DIR"

/-- The settings for retrying from a table. -/
def retryOfToml (v : Toml) : Except Fault RetrySettings := do
  let entries ← record ["max_attempts", "initial_backoff_ms", "max_backoff_ms"] v
  return {
    maxAttempts := ← withDefault "max_attempts" 4 (asNatBelow UInt32.size) entries
    initialBackoff := ← withDefault "initial_backoff_ms" 500 (asNatBelow UInt64.size) entries
    maxBackoff := ← withDefault "max_backoff_ms" 8000 (asNatBelow UInt64.size) entries }

/-- The settings for the bus from a table. -/
def busOfToml (v : Toml) : Except Fault Nat := do
  withDefault "timeout_ms" 25000 (asNatBelow UInt64.size) (← record ["timeout_ms"] v)

/-- The settings of a table. -/
def ofEntries (entries : List (String × Toml)) : Except Fault Settings := do
  closed ["backend", "state_dir", "retry", "bus"] entries
  return {
    backend := ← withDefault "backend" "host" asString entries
    stateDir? := (← optional "state_dir" asString entries).map Path.mk
    retry := ← withDefault "retry" {} retryOfToml entries
    busTimeout := ← withDefault "bus" 25000 busOfToml entries }

/-- The settings of a text. -/
def parse (text : String) : Except SettingsError Settings := do
  ((Toml.parse text).bind ofEntries).mapError .malformed

/-- Where the state directory is: where the operator says, or else where the
environment says, unless it says nothing, or else where the settings say. -/
def stateDir (s : Settings) (explicit : Option Path) (environment : Option String) : Path :=
  ((explicit.or ((environment.filter (· ≠ "")).map Path.mk)).or s.stateDir?).getD defaultStateDir

/-- How to retry. -/
def retryPolicy (s : Settings) : Retry :=
  .ofMillis s.retry.maxAttempts s.retry.initialBackoff s.retry.maxBackoff

/-- The settings as an object. -/
def toJson (s : Settings) : Json :=
  .object [("backend", .string s.backend),
    ("state_dir", .orNull (s.stateDir?.map (.string ·.text))),
    ("retry", .object [("max_attempts", .int s.retry.maxAttempts),
      ("initial_backoff_ms", .int s.retry.initialBackoff),
      ("max_backoff_ms", .int s.retry.maxBackoff)]),
    ("bus", .object [("timeout_ms", .int s.busTimeout)])]

end Settings

end Provision
