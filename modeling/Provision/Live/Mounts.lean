import Provision.Host.Error
import Provision.Mount.Table
import Provision.SystemCall

/-!
# The mount table of the kernel

The table is read from a file of the kernel and changed through mount(8) and
umount(8).

* `Live.findMount`: the last entry at a place.
* `Live.mount`, `Live.unmount`: run the program.
-/

namespace Provision.Live

open SystemCall

/-- Where the kernel shows the mount table. -/
def kernelTable : Path := ⟨"/proc/self/mounts"⟩

/-- The entries of the table. -/
def mountEntries (table : Path) : SystemCalls (Except HostError (List MountEntry)) := do
  return match ← request (.readText table) with
    | .ok text => .ok (Mount.parseTable text)
    | .error e => .error (.io e)

/-- The last entry at a place. Later lines are stacked on top of earlier ones. -/
def findMount (table target : Path) :
    SystemCalls (Except HostError (Option MountEntry)) := do
  let resolve ← request (.resolve [target])
  let wanted := (resolve target).getD target
  return (← mountEntries table).map fun entries => entries.reverse.find? (·.target.same wanted)

/-- Why a program failed: what it said, or else how it ended. -/
def reason (status : ExitStatus) (complaint : String) : String :=
  let text := Text.trim complaint
  if text = "" then "exited with " ++ status.describe else text

/-- Run a program to its end; why it failed, if it did. -/
def runTool (name : String) (arguments : List String) : SystemCalls (Option String) := do
  return match ← request (.runProgram name arguments) with
    | .error e => some ("failed to run " ++ name ++ ": " ++ e.message)
    | .ok (.code 0, _) => none
    | .ok (status, complaint) => some (reason status complaint)

/-- Whether the target of a mount has to be a directory. A bind mount of a file
has a file as its target. -/
def needsDirectory (spec : MountSpec) : SystemCalls Bool :=
  if spec.isBind then request (.isDirectory ⟨spec.source⟩) else return true

/-- Make the directory a file system is mounted at. -/
def prepareTarget (spec : MountSpec) : SystemCalls (Except HostError Unit) := do
  if ← needsDirectory spec then
    return (← request (.makeDirectories spec.target)).mapError .io
  else return .ok ()

/-- Mount a file system. -/
def mount (spec : MountSpec) : SystemCalls (Except HostError Unit) := do
  match ← prepareTarget spec with
  | .error e => return .error e
  | .ok () =>
    let tool := runTool "mount"
      ["-t", spec.fstype, "-o", spec.optionsText, spec.source, spec.target.text]
    return match ← tool with
      | none => .ok ()
      | some text => .error (.mountFailed spec.target (.reported text))

/-- Unmount the last file system at a place. -/
def unmount (target : Path) : SystemCalls (Except HostError Unit) := do
  return match ← runTool "umount" [target.text] with
    | none => .ok ()
    | some text => .error (.unmountFailed target text)

end Provision.Live
