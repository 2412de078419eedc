import Provision.RunLog
import Provision.Text.Blank

/-!
# Exit codes

What the program tells its caller in one number. An error is told by how its
message begins, a run by its status. A program that cannot tell what it has to
tell has nothing to say of either.

* `Exit.ofMessage`: the exit after an error.
* `Exit.ofStatus`: the exit after a run.
* `Exit.ofPanic`: the exit where a text could not be written.
* `Exit.code`: the number.
-/

namespace Provision.Cli

/-- How the program ends. -/
inductive Exit where
  | success
  | failure
  /-- The arguments, the settings or the plan are wrong; nothing was touched. -/
  | refused
  /-- Another run is going on. -/
  | locked
  /-- A step failed. -/
  | aborted
  /-- The operator interrupted the run. -/
  | cancelled
  /-- The program broke down. -/
  | panicked
deriving DecidableEq, Inhabited, Repr

namespace Exit

/-- The number of an exit. -/
def code : Exit → Nat
  | success => 0
  | failure => 1
  | refused => 2
  | locked => 3
  | aborted => 4
  | cancelled => 5
  | panicked => 101

/-- How the messages begin that are about the settings or the plan. -/
def refusals : List String := ["plan error:", "config error:"]

/-- How the messages begin that are about the run lock. -/
def lockMessage : String := "run lock:"

/-- The exit after an error, told by how its message begins. -/
def ofMessage (message : String) : Exit :=
  if refusals.any (·.toList.isPrefixOf message.toList) then .refused
  else if lockMessage.toList.isPrefixOf message.toList then .locked
  else .failure

/-- The exit after a run, told by its status. -/
def ofStatus : RunStatus → Exit
  | .completed | .aborted .operator => .success
  | .aborted .failure => .aborted
  | .aborted .cancelled => .cancelled
  | .notStarted | .running => .failure

/-- What the message of a panic holds where nobody reads what is written. -/
def unheard : List String :=
  ["Broken pipe", "broken pipe", "os error 32", "failed printing to stdout"]

/-- The exit after a panic. Where nobody reads what is written the program ends
quietly, whatever it had to tell. -/
def ofPanic (message : String) : Exit :=
  if unheard.any fun part => Text.occurs part.toList message.toList then .success else .panicked

end Exit

end Provision.Cli
