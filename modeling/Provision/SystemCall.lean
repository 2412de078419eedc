import Provision.Bus.Error
import Provision.Duration
import Provision.Instant
import Provision.IoError
import Provision.Path
import Provision.Script

/-!
# Requests to the operating system

What the program asks of the machine it runs on: files, locks, programs, the
control bus, the clock, what the process knows of itself, and to be heard.

* `SystemCall`, `SystemCall.interface`: the requests and their replies.
* `SystemCalls`: the scripts that make them.
-/

namespace Provision

/-- How a program ended. -/
inductive ExitStatus where
  | code (n : Nat)
  /-- Stopped by a signal, with the name of the signal when it has one. -/
  | signal (n : Nat) (name : Option String)
deriving DecidableEq, Inhabited, Repr

/-- The signals by their short names. -/
def signalNumbers : List (String × Nat) :=
  [("HUP", 1), ("INT", 2), ("QUIT", 3), ("ILL", 4), ("TRAP", 5), ("ABRT", 6), ("BUS", 7),
    ("FPE", 8), ("KILL", 9), ("USR1", 10), ("SEGV", 11), ("USR2", 12), ("PIPE", 13),
    ("ALRM", 14), ("TERM", 15), ("STKFLT", 16), ("CHLD", 17), ("CONT", 18), ("STOP", 19),
    ("TSTP", 20), ("TTIN", 21), ("TTOU", 22), ("URG", 23), ("XCPU", 24), ("XFSZ", 25),
    ("VTALRM", 26), ("PROF", 27), ("WINCH", 28), ("IO", 29), ("PWR", 30), ("SYS", 31)]

/-- The end of a program that a signal stopped. -/
def ExitStatus.killed (name : String) : ExitStatus :=
  .signal ((signalNumbers.lookup name).getD 0) (some ("SIG" ++ name))

/-- The status in words. -/
def ExitStatus.describe : ExitStatus → String
  | code n => "exit status: " ++ toString n
  | signal n none => "signal: " ++ toString n
  | signal n (some name) => "signal: " ++ toString n ++ " (" ++ name ++ ")"

/-- A method of the service manager on the control bus. -/
inductive BusMethod where
  /-- The object of a unit. -/
  | loadUnit (unit : String)
  | loadState (object : String)
  | activeState (object : String)
  | unitFileState (unit : String)
  | startUnit (unit : String)
  | stopUnit (unit : String)
  | reloadUnit (unit : String)
  | restartUnit (unit : String)
  | enableUnitFile (unit : String)
  | disableUnitFile (unit : String)
  | reload
deriving DecidableEq, Repr

/-- Where a program writes what it has to say. -/
inductive Stream where
  | output
  | errors
deriving DecidableEq, Repr

/-- A request to the operating system. -/
inductive SystemCall where
  | readText (path : Path)
  | pathExists (path : Path)
  | isDirectory (path : Path)
  | listDirectory (path : Path)
  /-- Make a directory and those above it. -/
  | makeDirectories (path : Path)
  | writeText (path : Path) (text : String)
  /-- Put a whole new file in the place of another one, at once. -/
  | replaceText (path : Path) (text : String)
  /-- What some paths lead to, through symbolic links. -/
  | resolve (paths : List Path)
  /-- Make a file unless it is there and take its lock unless it is held. -/
  | tryLock (path : Path)
  | unlock (path : Path)
  /-- Run a program to its end; how it ended, and what it said about errors. -/
  | runProgram (name : String) (arguments : List String)
  /-- Make sure that there is a connection to the control bus. -/
  | connectBus (timeout : Duration)
  | callBus (method : BusMethod)
  | pause (length : Duration)
  | now
  | process
  /-- Whether the process was asked to stop. -/
  | interrupted
  | environment (name : String)
  | effectiveUser
  /-- The bytes that are free where a path leads. -/
  | freeSpace (path : Path)
  /-- Write a text to the operator. -/
  | print (stream : Stream) (text : String)

namespace SystemCall

/-- What a request returns. -/
def Reply : SystemCall → Type
  | readText _ => Except IoError String
  | pathExists _ => Bool
  | isDirectory _ => Bool
  | listDirectory _ => Except IoError (List String)
  | makeDirectories _ => Except IoError Unit
  | writeText _ _ => Except IoError Unit
  | replaceText _ _ => Except IoError Unit
  | resolve _ => Path → Option Path
  | tryLock _ => Except IoError Bool
  | unlock _ => Unit
  | runProgram _ _ => Except IoError (ExitStatus × String)
  | connectBus _ => Except String Unit
  | callBus _ => Except Bus.Error String
  | pause _ => Unit
  | now => Instant
  | process => Nat
  | interrupted => Bool
  | environment _ => Option String
  | effectiveUser => Nat
  | freeSpace _ => Option Nat
  | print _ _ => Except IoError Unit

/-- The interface of the operating system. -/
def interface : Interface := ⟨SystemCall, Reply⟩

/-- Make one request. -/
def request (r : SystemCall) : Script interface r.Reply := Script.request (I := interface) r

end SystemCall

/-- What is done by making these requests. -/
abbrev SystemCalls (α : Type) : Type := Script SystemCall.interface α

end Provision
