import Provision.Cli.Program
import Std.Time.DateTime.Timestamp

/-!
# The program on a real machine

Every request of the program is carried out here, and nothing is decided here.
No other program is started from here and no connection is made to the control
bus: both answer as a machine does that does not support them.
-/

namespace Provision.Kernel

/-- What stands for an error of the operating system: its number or the negative
of it, in 32 bits. -/
def errorWord : IO.Error → UInt32
  | .alreadyExists _ code _ | .permissionDenied _ code _ | .noFileOrDirectory _ code _
  | .inappropriateType _ code _ | .invalidArgument _ code _ | .noSuchThing _ code _
  | .resourceExhausted _ code _ | .otherError code _ | .resourceBusy code _
  | .unsupportedOperation code _ => code
  | _ => 0

/-- The number that the operating system gave an error. -/
def errorNumber (e : IO.Error) : Nat := min (errorWord e).toNat (-errorWord e).toNat

/-- The errors that have a number. -/
def numbered : List IoError :=
  [.notFound, .permissionDenied, .alreadyExists, .notADirectory, .isADirectory, .brokenPipe,
    .nameTooLong, .tooManyLinks, .unsupported]

/-- An error of the operating system. -/
def errorOf (e : IO.Error) : IoError :=
  (numbered.find? (·.code? = some (errorNumber e))).getD (.other (toString e))

/-- Carry something out; a failure is part of the answer. -/
def attempt {α : Type} (act : IO α) : IO (Except IoError α) := do
  match ← act.toBaseIO with
  | .ok a => return .ok a
  | .error e => return .error (errorOf e)

/-- The absolute path without links that a path leads to. -/
def resolve (path : Path) : IO (Option Path) := do
  match ← attempt (IO.FS.realPath path.text) with
  | .ok place => return some ⟨place.toString⟩
  | .error _ => return none

/-- Whether a path leads to a directory. -/
def isDirectory (path : Path) : IO Bool := do
  match ← attempt (IO.FS.realPath path.text) with
  | .ok place => place.isDir
  | .error _ => return false

/-- The text of a file. -/
def readText (path : Path) : IO (Except IoError String) := do
  match ← attempt (IO.FS.readBinFile path.text) with
  | .ok bytes =>
    match String.fromUTF8? bytes with
    | some text => return .ok text
    | none => return .error .notText
  | .error e => return .error e

/-- The names in a directory. -/
def names (path : Path) : IO (List String) := do
  let place ← IO.FS.realPath path.text
  return (← place.readDir).toList.map (·.fileName)

/-- Put a whole new file in the place of another one, at once. -/
def replace (path : Path) (text : String) : IO Unit := do
  let draft := path.text ++ ".new"
  IO.FS.writeFile draft text
  IO.FS.rename draft path.text

/-- The files whose lock is held. -/
abbrev Locks := IO.Ref (List (Path × IO.FS.Handle))

/-- Take the lock of a file, unless it is held. -/
def tryLock (locks : Locks) (path : Path) : IO Bool := do
  let file ← IO.FS.Handle.mk path.text .append
  let free ← file.tryLock
  if free then locks.modify ((path, file) :: ·)
  return free

/-- Let go of the lock of a file. -/
def unlock (locks : Locks) (path : Path) : IO Unit := do
  for (_, file) in (← locks.get).filter (·.1 = path) do
    let _ ← attempt file.unlock
  locks.modify (·.filter (·.1 ≠ path))

/-- The time. -/
def now : IO Instant := do
  let nanos := (← Std.Time.Timestamp.now).toNanosecondsSinceUnixEpoch.val.toNat
  return .ofEpoch (nanos / 1000000000) (nanos % 1000000000)

/-- The number of this process. -/
def process : IO Nat := do
  let self ← resolve ⟨"/proc/self"⟩
  return ((self.bind (·.pieces.getLast?)).bind (·.toNat?)).getD 0

/-- The number of the user in whose name the process acts: the second one of the
line on users. -/
def effectiveUser : IO Nat := do
  match ← readText ⟨"/proc/self/status"⟩ with
  | .ok text =>
    let rows := (Text.lines text.toList).map fun line => (Text.words line).map String.ofList
    let row := rows.find? (·.head? = some "Uid:")
    return ((row.bind (·[2]?)).bind (·.toNat?)).getD 0
  | .error _ => return 0

/-- The number of the error of a stream that is closed. -/
def badDescriptor : Nat := 9

/-- Write a text to the operator. A stream that is closed takes every text. -/
def print (stream : Stream) (text : String) : IO (Except IoError Unit) := do
  let file ← match stream with
    | .output => IO.getStdout
    | .errors => IO.getStderr
  let act : IO Unit := do
    file.putStr text
    file.flush
  match ← act.toBaseIO with
  | .ok () => return .ok ()
  | .error e => return if errorNumber e = badDescriptor then .ok () else .error (errorOf e)

/-- The reply to a request. -/
def answer (locks : Locks) : (r : SystemCall) → IO r.Reply
  | .readText path => readText path
  | .pathExists path => return (← resolve path).isSome
  | .isDirectory path => isDirectory path
  | .listDirectory path => attempt (names path)
  | .makeDirectories path => attempt (IO.FS.createDirAll path.text)
  | .writeText path text => attempt (IO.FS.writeFile path.text text)
  | .replaceText path text => attempt (replace path text)
  | .resolve paths => do
    let found ← paths.mapM fun path => return (path.text, ← resolve path)
    return fun path => (found.lookup path.text).join
  | .tryLock path => attempt (tryLock locks path)
  | .unlock path => unlock locks path
  | .runProgram _ _ => return .error .unsupported
  | .connectBus _ => return .error IoError.unsupported.message
  | .callBus _ => return .error (.io IoError.unsupported.message)
  | .pause length => do IO.sleep (min length.millis (UInt32.size - 1)).toUInt32
  | .now => now
  | .process => process
  | .interrupted => return false
  | .environment name => IO.getEnv name
  | .effectiveUser => effectiveUser
  | .freeSpace _ => return none
  | .print stream text => print stream text

end Provision.Kernel

open Provision in
/-- Do what the arguments say, and end with the number that tells how it went. -/
def main (arguments : List String) : IO UInt32 := do
  let locks ← IO.mkRef []
  let ending ← (Cli.program arguments).interpret (Kernel.answer locks)
  return ending.exit.code.toUInt32
