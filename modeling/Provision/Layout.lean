import Provision.Path
import Provision.RunId

/-!
# The state directory

One directory holds the lock that is kept for the duration of a run, and a
directory of run logs, one file each.
-/

namespace Provision

/-- A state directory. -/
structure Layout where
  root : Path
deriving DecidableEq, Inhabited, Repr

namespace Layout

/-- The directory of the run logs. -/
def runsDir (layout : Layout) : Path := layout.root.join "runs"

/-- The run log of a run. -/
def runPath (layout : Layout) (id : String) : Path := layout.runsDir.join (id ++ ".json")

/-- The file whose lock is held for the duration of a run. -/
def lockFile (layout : Layout) : Path := layout.root.join "run.lock"

end Layout

end Provision
