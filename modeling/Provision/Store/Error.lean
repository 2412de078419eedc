import Provision.IoError
import Provision.Json.Reader
import Provision.Path

/-!
# Errors of the run log store

* `StoreError.message`: the error in words.
-/

namespace Provision

/-- Why a run log could not be stored or loaded. -/
inductive StoreError where
  | io (error : IoError)
  | serialization (fault : Json.Fault)
  | runNotFound (id : String)
  | invalidRunId (id : String)
  | noRuns (root : String)
deriving DecidableEq, Inhabited, Repr

/-- The error in words. -/
def StoreError.message : StoreError → String
  | io e => "state I/O error: " ++ e.message
  | serialization fault => "serialization error: " ++ fault.message
  | runNotFound id => "run not found: " ++ id
  | invalidRunId id => "invalid run id '" ++ id ++ "': expected YYYYMMDDHHMMSSmmm-xxxxxxxx"
  | noRuns root => "no runs recorded in " ++ root

end Provision
