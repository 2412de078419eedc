import Provision.Cli.Completions
import Provision.Cli.Doctor
import Provision.Cli.Logs
import Provision.Cli.Manual
import Provision.Cli.Runs

/-!
# The program

The arguments say what is to be done; what is done is a script of requests to
the operating system, and what comes of it is told in the end. Nothing is asked of the
machine before the arguments have been understood.

* `Cli.execute`: what a command does.
* `Cli.program`: from the arguments to the end.
-/

namespace Provision.Cli

/-- What a command does. -/
def execute (options : Globals) : Command → Commanding Output
  | .run file skip dryRun => do run (← Context.load options) file skip dryRun
  | .plan file => do plan (← Context.load options) file
  | .rollback id => do rollback (← Context.load options) id
  | .log id => do log (← Context.load options) id
  | .doctor => do ExceptT.lift (doctor (← Context.load options))
  | .completions shell => return .ofLines .success (completions shell)
  | .manPages dir => manPages dir

/-- The output when the arguments name nothing to be done. -/
def Stop.output : Stop → Output
  | .usage reason =>
    { exit := .refused
      stream := .errors
      texts := [Text.unlines ["error: " ++ reason, "", "For more information, try '--help'."]] }
  | .help command => { exit := .success, texts := [Text.unlines (Cli.help command)] }
  | .version => .ofLines .success [programName ++ " " ++ Cli.version]

/-- Tell what the arguments ask for, or what is wrong with them. It makes no
difference whether it can be written. -/
def Stop.tell (s : Stop) : SystemCalls Ending := do
  let (written, _) ← printAll s.output.stream s.output.texts
  return .of s.output.exit s.output.stream written

/-- From the arguments to the end. -/
def program (arguments : List String) : SystemCalls Ending :=
  match parse arguments with
  | .error stop => stop.tell
  | .ok (options, command) => do
    match ← (execute options command).run with
    | .ok output => output.tell
    | .error e => (Output.ofError e).tell

end Provision.Cli
