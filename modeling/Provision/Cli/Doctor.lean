import Provision.Cli.Context

/-!
# Diagnostic checks

A check passes, fails, warns or only informs. A check that fails makes the host
unhealthy, but for the one on disk space.

* `Cli.doctor`: every check, in order.
* `Check.ofUser`, `ofRootMount`, `ofManager`, `ofLock`, `ofRuns`, `ofFreeSpace`:
  what is made of what the machine answers.
-/

namespace Provision.Cli

/-- How a check went. -/
inductive Verdict where
  | pass
  | fail
  | warn
  | info
deriving DecidableEq, Inhabited, Repr

namespace Verdict

/-- The name of a verdict. -/
def name : Verdict → String
  | pass => "pass"
  | fail => "fail"
  | warn => "warn"
  | info => "info"

/-- The sign of a verdict. -/
def sign : Verdict → String
  | pass => "✓"
  | fail => "✗"
  | warn => "⚠"
  | info => "ℹ"

end Verdict

/-- The outcome of a check. -/
structure Check where
  name : String
  verdict : Verdict
  message : String
deriving DecidableEq, Inhabited, Repr

namespace Check

/-- Whether a check that went like this leaves the host healthy. -/
def isHealthy (c : Check) : Bool := c.verdict ≠ .fail || c.name = "disk_space"

/-- What the settings say. -/
def ofSettings (c : Context) : Check where
  name := "settings"
  verdict := .info
  message := "Backend '" ++ c.settings.backend ++ "', state directory " ++ c.stateDir.text

/-- Who runs the program. -/
def ofUser (user : Nat) : Check :=
  if user = 0 then ⟨"privileges", .pass, "Running as root"⟩
  else
    ⟨"privileges", .warn,
      "Running as uid " ++ toString user ++ "; mounting and unit changes need root"⟩

/-- What is mounted at the root. -/
def ofRootMount : Except HostError (Option MountEntry) → Check
  | .ok (some root) =>
    ⟨"mount_table", .pass,
      "Mount table readable (/ is " ++ root.fstype ++ " " ++ root.source ++ ")"⟩
  | .ok none => ⟨"mount_table", .warn, "Mount table readable but lists no root filesystem"⟩
  | .error e => ⟨"mount_table", .fail, "Cannot read mount table: " ++ e.message⟩

/-- The unit of the root file system, which every service manager knows. -/
def rootUnit : String := "-.mount"

/-- What the service manager says of the unit of the root file system. -/
def ofManager : Except HostError UnitState → Check
  | .ok state =>
    if state.isLoaded then ⟨"systemd_bus", .pass, "systemd reachable on the system bus"⟩
    else
      ⟨"systemd_bus", .warn, "systemd reachable but " ++ rootUnit ++ " is " ++ state.loadState⟩
  | .error e => ⟨"systemd_bus", .fail, "Cannot reach systemd: " ++ e.message⟩

/-- Whether the run lock could be taken. -/
def ofLock : Except IoError Bool → Check
  | .ok true => ⟨"run_lock", .pass, "Run lock is free"⟩
  | .ok false => ⟨"run_lock", .warn, "Run lock is held by another process"⟩
  | .error e => ⟨"run_lock", .fail, "Cannot check run lock: " ++ (RunError.io e).message⟩

/-- How many steps a log says are still applied, or may be. -/
def appliedCount (log : RunLog) : Nat := log.outstanding.length + log.inFlight.toList.length

/-- How the most recent of some runs ended. -/
def ofLastRun (count : Nat) (log : RunLog) : Check :=
  if log.status ≠ .completed ∧ 0 < appliedCount log then
    ⟨"last_run", .warn,
      "Run " ++ log.runId ++ " is " ++ log.status.describe ++ " with " ++
        toString (appliedCount log) ++ " step(s) still applied (see '" ++ programName ++
        " rollback " ++ log.runId ++ "')"⟩
  else
    ⟨"last_run", .info,
      toString count ++ " runs recorded; last " ++ log.runId ++ " is " ++ log.status.describe⟩

/-- The runs that are recorded. -/
def ofRuns : Except StoreError (List RunLog) → Check
  | .ok logs =>
    match logs.getLast? with
    | none => ⟨"last_run", .info, "No runs recorded"⟩
    | some log => ofLastRun logs.length log
  | .error e => ⟨"last_run", .warn, "Cannot list runs: " ++ e.message⟩

/-- How many megabytes are free. -/
def ofFreeSpace (megabytes : Nat) : Check :=
  if megabytes < 16 then
    ⟨"disk_space", .fail,
      "Low disk space for run logs: " ++ toString megabytes ++ " MB available"⟩
  else ⟨"disk_space", .pass, "Disk space: " ++ toString megabytes ++ " MB available"⟩

end Check

/-- The checks of the live host. -/
def checkLive (live : Live.Host) : SystemCalls (List Check) := do
  let user ← SystemCall.request .effectiveUser
  let root ← Live.call live (.find ⟨"/"⟩)
  let state ← Live.call live (.unitState Check.rootUnit)
  return [.ofUser user, .ofRootMount root, .ofManager state]

/-- The checks of the backend. -/
def checkBackend (c : Context) : SystemCalls (List Check) :=
  match c.backend with
  | .ok (.host live) => checkLive live
  | .ok .mock => return [⟨"backend", .info, "Mock backend selected; host checks skipped"⟩]
  | .error e => return [⟨"backend", .fail, (CommandError.backend e).message⟩]

/-- The check of the run lock. A lock that could be taken is let go again. -/
def checkLock (layout : Layout) : SystemCalls Check := do
  let taken ← layout.tryLock
  if taken matches .ok true then SystemCall.request (.unlock layout.lockFile)
  return .ofLock taken

/-- The check of disk space, unless there is no telling. -/
def checkFreeSpace (dir : Path) : SystemCalls (List Check) := do
  let free : Option Nat ← SystemCall.request (.freeSpace dir)
  return (free.map fun bytes => Check.ofFreeSpace (bytes / (1024 * 1024))).toList

/-- The checks of the state directory. -/
def checkState (c : Context) : SystemCalls (List Check) := do
  let isThere : Bool ← SystemCall.request (.pathExists c.layout.runsDir)
  if isThere then
    let lock ← checkLock c.layout
    let runs ← (Store.list c.layout).run
    let free ← checkFreeSpace c.stateDir
    return ⟨"state_dir", .pass, "State directory exists"⟩ :: lock :: .ofRuns runs :: free
  else
    return [⟨"state_dir", .info,
      "State directory not initialized (will be created on first run)"⟩]

/-- Checks in lines. -/
def checkLines (checks : List Check) : List String :=
  "Cloyster Doctor\n" :: checks.map (fun c => "  " ++ c.verdict.sign ++ " " ++ c.message) ++
    ["", if checks.all (·.isHealthy) then "All checks passed."
      else "Some checks failed. See above for details."]

/-- Checks as one object. -/
def checksToJson (checks : List Check) : Json :=
  .object [("healthy", .bool (checks.all (·.isHealthy))),
    ("checks", .array (checks.map fun c =>
      .object [("name", .string c.name), ("status", .string c.verdict.name),
        ("message", .string c.message)]))]

/-- Every check, in order. -/
def doctor (c : Context) : SystemCalls Output := do
  let ofBackend ← checkBackend c
  let ofState ← checkState c
  let checks := Check.ofSettings c :: ofBackend ++ ofState
  let exit := if checks.all (·.isHealthy) then .success else .failure
  return if c.json then .ofJson exit (checksToJson checks).sorted
    else .ofLines exit (checkLines checks)

end Provision.Cli
