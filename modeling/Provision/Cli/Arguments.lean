import Provision.Cli.Grammar
import Provision.Path
import Provision.Settings
import Provision.Text.Blank

/-!
# Parsing the command line

Options may stand before and after the command. An option that is given before
the command counts unless it is given after it, too; on either side it may be
given once, unless it is repeatable.

* `Cli.scan`: the options and operands on one side of the command.
* `Cli.parse`: what is to be done.
-/

namespace Provision.Cli

/-- Why the arguments name nothing to be done. -/
inductive Stop where
  /-- The arguments are wrong, for this reason. -/
  | usage (reason : String)
  /-- Help is asked for, perhaps with a command. -/
  | help (command : Option String)
  | version
deriving DecidableEq, Inhabited, Repr

/-- What stands on one side of the command. -/
structure Given where
  /-- The long names of the options, each with its value. -/
  options : List (String × String) := []
  operands : List String := []
deriving DecidableEq, Inhabited, Repr

/-- What may stand on one side of the command. -/
structure Level where
  /-- The command, after it. -/
  command : Option CommandSpec
  options : List OptionSpec

namespace Level

/-- What may stand before the command. -/
def top : Level := ⟨none, globals⟩

/-- What may stand after a command. -/
def of (command : CommandSpec) : Level := ⟨some command, command.options ++ globals⟩

/-- The operands that may stand here. -/
def operands (l : Level) : List OperandSpec := (l.command.map (·.operands)).getD []

/-- Take an option with its value. -/
def take (given : Given) (spec : OptionSpec) (value : String) : Except Stop Given :=
  if spec.isPath ∧ value = "" then
    .error (.usage ("a value is required for '--" ++ spec.long ++ "' but none was supplied"))
  else if !spec.repeatable ∧ (given.options.any (·.1 = spec.long)) then
    .error (.usage ("the argument '--" ++ spec.long ++ "' cannot be used multiple times"))
  else .ok { given with options := given.options ++ [(spec.long, value)] }

/-- Take an operand. -/
def takeOperand (l : Level) (given : Given) (value : String) : Except Stop Given :=
  match l.operands[given.operands.length]? with
  | none => .error (.usage ("unexpected argument '" ++ value ++ "' found"))
  | some spec =>
    if spec.isPath ∧ value = "" then
      .error (.usage ("a value is required for '<" ++ spec.name ++ ">' but none was supplied"))
    else if spec.choices ≠ [] ∧ !spec.choices.contains value then
      .error (.usage ("invalid value '" ++ value ++ "' for '<" ++ spec.name ++ ">'"))
    else .ok { given with operands := given.operands ++ [value] }

/-- Ask for help. -/
def help (l : Level) : Stop := .help (l.command.map (·.name))

/-- Take the switches of a group of letters. -/
def takeLetters (l : Level) (given : Given) : List Char → Except Stop Given
  | [] => .ok given
  | c :: rest =>
    match l.options.find? (·.short = some c) with
    | some spec => do l.takeLetters (← take given spec "") rest
    | none =>
      if c = 'h' then .error l.help
      else if c = 'V' ∧ l.command.isNone then .error .version
      else .error (.usage ("unexpected argument '-" ++ .ofList [c] ++ "' found"))

/-- The option with a long name. -/
def long (l : Level) (name : String) (value : Option String) : Except Stop OptionSpec :=
  match l.options.find? (·.long = name), value with
  | some spec, none => .ok spec
  | some spec, some value =>
    if spec.value.isNone then
      .error (.usage ("unexpected value '" ++ value ++ "' for '--" ++ name ++ "' found"))
    else .ok spec
  | none, none =>
    if name = "help" then .error l.help
    else if name = "version" ∧ l.command.isNone then .error .version
    else .error (.usage ("unexpected argument '--" ++ name ++ "' found"))
  | none, some _ => .error (.usage ("unexpected argument '--" ++ name ++ "' found"))

end Level

/-- An argument by its form. -/
inductive Token where
  | separator
  | long (name : String) (value : Option String)
  | letters (letters : List Char)
  | operand

/-- The form of an argument. -/
def Token.of (argument : String) : Token :=
  match argument.toList with
  | ['-', '-'] => .separator
  | '-' :: '-' :: name =>
    match Text.splitOnce '=' name with
    | some (name, value) => .long (.ofList name) (some (.ofList value))
    | none => .long (.ofList name) none
  | '-' :: c :: more => .letters (c :: more)
  | _ => .operand

/-- Whether an argument has the form of an option. -/
def Token.isOption : Token → Bool
  | .operand => false
  | .separator | .long _ _ | .letters _ => true

/-- The options and operands on one side of the command, and the arguments from
the command on. -/
def scan (l : Level) : Given → List String → Except Stop (Given × List String)
  | given, [] => .ok (given, [])
  | given, argument :: rest =>
    match Token.of argument with
    | .operand =>
      if l.command.isNone then .ok (given, argument :: rest)
      else do scan l (← l.takeOperand given argument) rest
    | .separator => do .ok (← rest.foldlM l.takeOperand given, [])
    | .letters letters => do scan l (← l.takeLetters given letters) rest
    | .long name value => do
      let spec ← l.long name value
      match spec.value, value with
      | none, _ => scan l (← Level.take given spec "") rest
      | some _, some value => scan l (← Level.take given spec value) rest
      | some _, none =>
        match rest with
        | next :: rest =>
          if (Token.of next).isOption then
            .error (.usage ("a value is required for '--" ++ name ++ "' but none was supplied"))
          else scan l (← Level.take given spec next) rest
        | [] => .error (.usage ("a value is required for '--" ++ name ++ "' but none was supplied"))

/-- What is said for every command. -/
structure Globals where
  stateDir : Option Path := none
  config : Path := Settings.defaultPath
  json : Bool := false
deriving DecidableEq, Inhabited, Repr

/-- What is to be done. -/
inductive Command where
  | run (plan : Path) (skip : List String) (dryRun : Bool)
  | plan (plan : Path)
  | rollback (id : Option String)
  | log (id : Option String)
  | doctor
  | completions (shell : String)
  | manPages (dir : Path)
deriving DecidableEq, Inhabited, Repr

namespace Given

/-- The value of an option. -/
def value? (given : Given) (long : String) : Option String := given.options.lookup long

/-- Whether an option is given. -/
def has (given : Given) (long : String) : Bool := (given.value? long).isSome

/-- What is said for every command, on either side of it. -/
def globals (before after : Given) : Globals where
  stateDir := ((after.value? "state-dir").or (before.value? "state-dir")).map Path.mk
  config := (((after.value? "config").or (before.value? "config")).map Path.mk).getD
    Settings.defaultPath
  json := before.has "json" || after.has "json"

/-- What is to be done by a command. -/
def command (given : Given) (name : String) : Option Command :=
  match name, given.operands with
  | "run", [plan] =>
    let skip := (given.options.filter (·.1 = "skip")).map (·.2)
    some (.run ⟨plan⟩ skip (given.has "dry-run"))
  | "plan", [plan] => some (.plan ⟨plan⟩)
  | "rollback", ids => some (.rollback ids.head?)
  | "log", ids => some (.log ids.head?)
  | "doctor", _ => some .doctor
  | "completions", [shell] => some (.completions shell)
  | "man-pages", dirs => some (.manPages ((dirs.head?.map Path.mk).getD ⟨"man"⟩))
  | _, _ => none

end Given

/-- What the arguments say is to be done. -/
def parse (arguments : List String) : Except Stop (Globals × Command) := do
  let (before, rest) ← scan .top {} arguments
  match rest with
  | [] => .error (.usage "a subcommand is required but one was not provided")
  | name :: rest =>
    match commands.find? (·.name = name) with
    | some spec => do
      let (after, _) ← scan (.of spec) {} rest
      match after.command name with
      | some command => .ok (before.globals after, command)
      | none => .error (.usage "a required argument was not provided")
    | none =>
      if name ≠ helpCommand.name then .error (.usage ("unrecognized subcommand '" ++ name ++ "'"))
      else
        match rest with
        | [] => .error (.help none)
        | [name] =>
          if (commands ++ [helpCommand]).any (·.name = name) then .error (.help (some name))
          else .error (.usage ("unrecognized subcommand '" ++ name ++ "'"))
        | _ => .error (.usage "unrecognized subcommand")

end Provision.Cli
