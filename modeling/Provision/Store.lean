import Provision.Layout
import Provision.RunLog.Codec
import Provision.Store.Error
import Provision.SystemCall

/-!
# The run log store

Run logs are files of one directory, one a run. A log is always replaced as a
whole, so that what is on disk is one that was saved.

* `Store.save`, `Store.load`: one log.
* `Store.list`, `Store.latest`: every log that can be read, oldest first, and
  the last of them.
-/

namespace Provision.Store

open SystemCall

/-- What the store does. -/
abbrev Stored (α : Type) : Type := ExceptT StoreError SystemCalls α

/-- A request whose failure is an error of the store. -/
def attempt {α : Type} (ask : SystemCalls (Except IoError α)) : Stored α :=
  ExceptT.mk ((·.mapError StoreError.io) <$> ask)

/-- Make the directory of run logs. -/
def prepare (layout : Layout) : Stored Unit :=
  attempt (request (.makeDirectories layout.runsDir))

/-- Put a run log on disk, in the place of the one it goes on from. -/
def save (layout : Layout) (log : RunLog) : Stored Unit := do
  attempt (request (.makeDirectories layout.runsDir))
  attempt (request (.replaceText (layout.runPath log.runId) log.render))

/-- The run log in a text. -/
def decode (text : String) : Except StoreError RunLog :=
  (RunLog.parse text).mapError .serialization

/-- The run log of a run. What does not look like the name of a run is not
looked for. -/
def load (layout : Layout) (id : String) : Stored RunLog := do
  if !RunId.isValid id then throw (.invalidRunId id)
  if !(← request (.pathExists (layout.runPath id))) then throw (.runNotFound id)
  let text ← attempt (request (.readText (layout.runPath id)))
  ExceptT.mk (.done (decode text))

/-- Whether a file is named like a run log. -/
def isLogName (name : String) : Bool :=
  ".json".toList.isSuffixOf name.toList && name.length > 5

/-- The run logs among some files; what cannot be read is left out. -/
def readLogs (layout : Layout) : List String → SystemCalls (List RunLog)
  | [] => return []
  | name :: rest => do
    let text ← request (.readText (layout.runsDir.join name))
    let logs ← readLogs layout rest
    return (match (text : Except IoError String) with
      | .ok text => (RunLog.parse text).toOption.toList
      | .error _ => []) ++ logs

/-- Whether a run log comes before another one: by the moment the run was
created, then by name. -/
def isBefore (a b : RunLog) : Bool :=
  a.startedAt < b.startedAt || (a.startedAt == b.startedAt && a.runId ≤ b.runId)

/-- Every run log that can be read, oldest first. -/
def list (layout : Layout) : Stored (List RunLog) := do
  if !(← request (.pathExists layout.runsDir)) then return []
  let names ← attempt (request (.listDirectory layout.runsDir))
  let logs ← readLogs layout (names.filter isLogName)
  return logs.mergeSort isBefore

/-- The run log of the most recent run. -/
def latest (layout : Layout) : Stored RunLog := do
  match (← list layout).getLast? with
  | some log => return log
  | none => throw (.noRuns layout.root.text)

end Provision.Store
