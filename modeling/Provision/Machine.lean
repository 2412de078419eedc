import Provision.Files
import Provision.SystemCall

/-!
# A machine in memory

A tree of files, a clock, locks and a few programs, which answer every request
to the operating system. No control bus can be reached from it.

* `Machine.answer`: the reply to a request, and the machine after it.
* `Machine.listing`, `Machine.printing`: what is left open, in which order a directory is listed and
  whether anything can be printed.
* `Machine.instant`: the clock; every reading comes a millisecond later than the
  one before.
-/

namespace Provision

/-- What a program does when it is run. -/
structure Program where
  /-- A file, and what is put into it. -/
  writes : Option (Path × String) := none
  /-- What is said about errors. -/
  complaint : String := ""
  status : ExitStatus := .code 0
deriving DecidableEq, Inhabited, Repr

/-- A machine in memory. -/
structure Machine where
  files : Files := {}
  /-- When the clock was first read, in seconds and nanoseconds after the start of
  1970. -/
  epoch : Nat × Nat := (0, 0)
  /-- How often the clock has been read. -/
  readings : Nat := 0
  process : Nat := 1
  /-- The files whose lock is held. -/
  locks : List Place := []
  /-- The directories in which programs are looked for. -/
  searchPath : List Path := []
  programs : List (Place × Program) := []
  /-- The programs that have been run, with their arguments. -/
  runs : List (List String) := []
  environment : List (String × String) := []
  interrupted : Bool := false
  user : Nat := 0
  /-- The bytes that are free. -/
  free : Nat := 1 <<< 40
  /-- In which order the names in a directory are listed. -/
  listing : List String → List String := id
  listing_perm : ∀ names, (listing names).Perm names := by exact List.Perm.refl
  /-- What comes of printing to a stream. -/
  printing : Stream → Except IoError Unit := fun _ => .ok ()

namespace Machine

/-- The moment of a reading of the clock. -/
def instant (m : Machine) (reading : Nat) : Instant :=
  let millis := reading + m.epoch.2 / 1000000
  .ofEpoch (m.epoch.1 + millis / 1000) (millis % 1000 * 1000000 + m.epoch.2 % 1000000)

/-- The program with a name, where it is first found. -/
def program? (m : Machine) (name : String) : Option Program :=
  m.searchPath.findSome? fun dir =>
    match m.files.node (dir.join name) with
    | .ok (place, .file _) => m.programs.lookup place
    | _ => none

/-- A change to the tree of files, if it succeeds. -/
def change (m : Machine) (files : Except IoError Files) : Except IoError Unit × Machine :=
  match files with
  | .ok files => (.ok (), { m with files })
  | .error e => (.error e, m)

/-- Make a file unless it is there and take its lock. -/
def tryLock (m : Machine) (path : Path) : Except IoError Bool × Machine :=
  match m.files.touch path with
  | .error e => (.error e, m)
  | .ok files =>
    let m := { m with files }
    match files.node path with
    | .error e => (.error e, m)
    | .ok (place, _) =>
      if m.locks.contains place then (.ok false, m)
      else (.ok true, { m with locks := place :: m.locks })

/-- Let go of the lock of a file. -/
def unlock (m : Machine) (path : Path) : Machine :=
  match m.files.node path with
  | .ok (place, _) => { m with locks := m.locks.erase place }
  | .error _ => m

/-- Run a program. -/
def run (m : Machine) (name : String) (arguments : List String) :
    Except IoError (ExitStatus × String) × Machine :=
  match m.program? name with
  | none => (.error .notFound, m)
  | some program =>
    let m := { m with runs := m.runs ++ [name :: arguments] }
    let m :=
      match program.writes with
      | some (path, text) => (m.change (m.files.write path text.toUTF8)).2
      | none => m
    (.ok (program.status, program.complaint), m)

/-- The reply to a request, and the machine after it. -/
def answer : (r : SystemCall) → Machine → r.Reply × Machine
  | .readText path, m => (m.files.readText path, m)
  | .pathExists path, m => (m.files.exists? path, m)
  | .isDirectory path, m => (m.files.isDir path, m)
  | .listDirectory path, m => (m.listing <$> m.files.names path, m)
  | .makeDirectories path, m => m.change (m.files.makeDirs path)
  | .writeText path text, m => m.change (m.files.write path text.toUTF8)
  | .replaceText path text, m => m.change (m.files.replace path text.toUTF8)
  | .resolve _, m => (m.files.canonical?, m)
  | .tryLock path, m => m.tryLock path
  | .unlock path, m => ((), m.unlock path)
  | .runProgram name arguments, m => m.run name arguments
  | .connectBus _, m => (.error "no bus", m)
  | .callBus _, m => (.error (.io "no bus"), m)
  | .pause _, m => ((), m)
  | .now, m => (m.instant m.readings, { m with readings := m.readings + 1 })
  | .process, m => (m.process, m)
  | .interrupted, m => (m.interrupted, m)
  | .environment name, m => (m.environment.lookup name, m)
  | .effectiveUser, m => (m.user, m)
  | .freeSpace path, m => (if m.files.exists? path then some m.free else none, m)
  | .print stream _, m => (m.printing stream, m)

end Machine

end Provision
