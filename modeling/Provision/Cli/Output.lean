import Provision.Cli.Exit
import Provision.Json.Printer
import Provision.Run.Error
import Provision.Settings
import Provision.SystemCall
import Provision.Text.Blank

/-!
# What a command leaves

A command has something to tell in the end, or it stops with an error, whose
message goes to the error stream. Either is written text by text, and the program
breaks down where a text cannot be written.

* `Cli.Output`: what is to be told, and how the program ends once it was.
* `Cli.CommandError`: why a command stopped.
* `Cli.Commanding`: what a command does on the machine.
* `Output.tell`, `Cli.Ending`: telling it, and what was told in the end.
-/

namespace Provision.Cli

/-- What is to be told in the end. -/
structure Output where
  exit : Exit
  stream : Stream := .output
  /-- The texts, each of which is written by itself. -/
  texts : List String := []
deriving DecidableEq, Repr

/-- The output of lines. -/
def Output.ofLines (exit : Exit) (lines : List String) : Output :=
  { exit, texts := lines.map (· ++ "\n") }

/-- The output of a JSON value. -/
def Output.ofJson (exit : Exit) (j : Json) : Output := .ofLines exit [j.pretty]

/-- Why a command stopped. -/
inductive CommandError where
  | settings (error : SettingsError)
  | backend (error : HostError)
  | run (error : RunError)
  /-- The directory for the manual pages could not be made. -/
  | manualDir (error : IoError)
  | manualPage (page : Path) (error : IoError)
deriving DecidableEq, Inhabited, Repr

/-- The error in words. -/
def CommandError.message : CommandError → String
  | settings e => "config error: " ++ e.message
  | backend e => "config error: " ++ e.message
  | run e => e.message
  | manualDir e => "failed to create dir: " ++ e.message
  | manualPage page e => "failed to write " ++ page.text ++ ": " ++ e.message

/-- The output of an error. -/
def Output.ofError (e : CommandError) : Output where
  exit := .ofMessage e.message
  stream := .errors
  texts := ["error: " ++ e.message ++ "\n"]

/-- What a command does on the machine. -/
abbrev Commanding (α : Type) : Type := ExceptT CommandError SystemCalls α

/-- Ask for something; a failure stops the command. -/
def settled {ε α : Type} (wrap : ε → CommandError) (ask : SystemCalls (Except ε α)) :
    Commanding α :=
  ExceptT.mk ((·.mapError wrap) <$> ask)

/-- Go on with a value, unless there is none. -/
def decided {ε α : Type} (wrap : ε → CommandError) (value : Except ε α) : Commanding α :=
  ExceptT.mk (.done (value.mapError wrap))

/-- Make one request. -/
def ask (r : SystemCall) : Commanding r.Reply := ExceptT.lift (SystemCall.request r)

/-- What the program leaves. -/
structure Ending where
  exit : Exit
  /-- What was written for the operator. -/
  out : String := ""
  /-- What was written about errors. -/
  err : String := ""
deriving DecidableEq, Repr

/-- The end of a program that has written to one stream. -/
def Ending.of (exit : Exit) : Stream → String → Ending
  | .output, out => { exit, out }
  | .errors, err => { exit, err }

/-- Write texts up to the first one that cannot be written: what was written, and
why no more was. -/
def printAll (stream : Stream) : List String → SystemCalls (String × Option IoError)
  | [] => return ("", none)
  | text :: rest => do
    match ← SystemCall.request (.print stream text) with
    | .error e => return ("", some e)
    | .ok () =>
      let (written, failure) ← printAll stream rest
      return (text ++ written, failure)

/-- The message of the panic where a text cannot be written. -/
def panicMessage (stream : Stream) (e : IoError) : String :=
  "failed printing to " ++ (match stream with
    | .output => "stdout"
    | .errors => "stderr") ++ ": " ++ e.message

/-- Tell what is to be told. Where a text cannot be written the program breaks
down. -/
def Output.tell (o : Output) : SystemCalls Ending := do
  let (written, failure) ← printAll o.stream o.texts
  let exit := match failure with
    | none => o.exit
    | some e => .ofPanic (panicMessage o.stream e)
  return .of exit o.stream written

end Provision.Cli
