import Provision.Cli.Grammar
import Provision.Text.Blank

/-!
# Help

The help of the program and of each command, made from the grammar. What
options, operands and commands are called stands in one column, what they are
for in the next.

* `Cli.usage`: how the program or a command is called.
* `Cli.help`: the help in lines.
-/

namespace Provision.Cli

/-- How an option is written: its letter, its name and its value. -/
def OptionSpec.usage (o : OptionSpec) : String :=
  (match o.short with
    | some c => "-" ++ .ofList [c] ++ ", "
    | none => "    ") ++
  "--" ++ o.long ++
  match o.value with
  | some value => " <" ++ value ++ ">"
  | none => ""

/-- How an operand is written. -/
def OperandSpec.usage (o : OperandSpec) : String :=
  if o.required then "<" ++ o.name ++ ">" else "[" ++ o.name ++ "]"

/-- What an operand is for, and what it may be. -/
def OperandSpec.explain (o : OperandSpec) : String :=
  if o.choices = [] then o.about
  else o.about ++ " [possible values: " ++ ", ".intercalate o.choices ++ "]"

/-- The option that asks for help. -/
def helpOption : OptionSpec := { long := "help", short := some 'h', about := "Print help" }

/-- The option that asks for the version. -/
def versionOption : OptionSpec := { long := "version", short := some 'V', about := "Print version" }

/-- The letter by which an option is found among those at the same place: its
short name, or else its long one. -/
def OptionSpec.sortKey (o : OptionSpec) : String :=
  (o.short.map fun c => String.ofList [c]).getD o.long

/-- The options of a command and those of every command side by side, each at its
place in its own list. -/
def interleave (own : List OptionSpec) : List OptionSpec → List OptionSpec
  | [] => own
  | g :: globals =>
    match own with
    | [] => g :: globals
    | o :: own =>
      if o.sortKey ≤ g.sortKey then o :: g :: interleave own globals
      else g :: o :: interleave own globals

/-- Two columns, the first as wide as it has to be. -/
def columns (rows : List (String × String)) : List String :=
  let width := (rows.map (·.1.length)).foldl max 0
  rows.map fun (left, right) => "  " ++ Text.padRight width left ++ "  " ++ right

/-- A part of the help, unless it is empty. -/
def part (title : String) (rows : List (String × String)) : List String :=
  if rows = [] then [] else "" :: title :: columns rows

/-- A part of the help about options. -/
def optionsPart (options : List OptionSpec) : List String :=
  part "Options:" (options.map fun o => (o.usage, o.about))

/-- The help of a command. -/
def CommandSpec.help (command : CommandSpec) : List String :=
  [command.about, "",
    " ".intercalate (["Usage:", programName, command.name, "[OPTIONS]"] ++
      command.operands.map (·.usage))] ++
  part "Arguments:" (command.operands.map fun o => (o.usage, o.explain)) ++
  optionsPart (interleave command.options globals ++ [helpOption])

/-- The help of the program. -/
def programHelp : List String :=
  [about, "", "Usage: " ++ programName ++ " [OPTIONS] <COMMAND>"] ++
  part "Commands:" ((commands ++ [helpCommand]).map fun c => (c.name, c.about)) ++
  optionsPart (globals ++ [helpOption, versionOption])

/-- The help of a command, or of the program. -/
def help (command : Option String) : List String :=
  match command.bind fun name => commands.find? (·.name = name) with
  | some command => command.help
  | none => programHelp

end Provision.Cli
