/-!
# The grammar of the command line

Which commands there are, and which options and operands each of them takes. The
parser of arguments, the help, the manual pages and the completions are all made
from these tables.

* `Cli.globals`: the options of every command.
* `Cli.commands`: the commands.
-/

namespace Provision.Cli

/-- An option. One without a value is a switch. -/
structure OptionSpec where
  long : String
  short : Option Char := none
  /-- What the value is called in the help. -/
  value : Option String := none
  /-- The value is a path, which may not be empty. -/
  isPath : Bool := false
  repeatable : Bool := false
  about : String
deriving DecidableEq, Inhabited, Repr

/-- An operand. -/
structure OperandSpec where
  name : String
  required : Bool := false
  /-- The operand is a path, which may not be empty. -/
  isPath : Bool := false
  /-- The only values there are; any value will do if there are none. -/
  choices : List String := []
  about : String
deriving DecidableEq, Inhabited, Repr

/-- A command. -/
structure CommandSpec where
  name : String
  about : String
  options : List OptionSpec := []
  operands : List OperandSpec := []
deriving DecidableEq, Inhabited, Repr

/-- The name of the program. -/
def programName : String := "cloyster"

/-- The version of the program. -/
def version : String := "0.1.0"

/-- What the program is for. -/
def about : String := "Idempotent provisioning orchestrator for HPC head nodes"

/-- The options of every command. -/
def globals : List OptionSpec :=
  [{ long := "state-dir", value := some "STATE_DIR", isPath := true
     about := "State directory holding run logs and the run lock" },
    { long := "config", value := some "CONFIG", isPath := true
      about := "Path to the settings file [default: /etc/cloyster/settings.toml]" },
    { long := "json", about := "Output results as structured JSON" },
    { long := "verbose", short := some 'v', about := "Enable verbose (debug) logging output" },
    { long := "trace", about := "Enable trace-level logging (more detailed than --verbose)" }]

/-- The shells for which there are completions. -/
def shells : List String := ["bash", "elvish", "fish", "powershell", "zsh"]

/-- The operand that names a plan file. -/
def planOperand : OperandSpec :=
  { name := "PLAN", required := true, isPath := true, about := "Path to the plan TOML file" }

/-- The commands. -/
def commands : List CommandSpec :=
  [{ name := "run", about := "Apply a plan to this host, rolling back on failure"
     options :=
       [{ long := "skip", value := some "STEP", repeatable := true
          about := "Treat a step as already satisfied (repeatable)" },
         { long := "dry-run", about := "Only show what would be done" }]
     operands := [planOperand] },
    { name := "plan", about := "Show the execution order and what each step would change"
      operands := [planOperand] },
    { name := "rollback", about := "Roll back the steps a recorded run left applied"
      operands := [{ name := "RUN_ID", about := "Run ID (defaults to the most recent run)" }] },
    { name := "log", about := "List recorded runs, or show one run in detail"
      operands := [{ name := "RUN_ID", about := "Run ID to show" }] },
    { name := "doctor", about := "Run diagnostic checks on the host and state directory" },
    { name := "completions"
      about := "Generate shell completions for bash, zsh, fish, elvish, or powershell"
      operands := [{ name := "SHELL", required := true, choices := shells
                     about := "Shell to generate completions for" }] },
    { name := "man-pages", about := "Generate man pages in the specified directory"
      operands := [{ name := "DIR", isPath := true
                     about := "Output directory for man pages [default: man]" }] }]

/-- The command that shows help. -/
def helpCommand : CommandSpec :=
  { name := "help", about := "Print this message or the help of the given subcommand(s)" }

end Provision.Cli
