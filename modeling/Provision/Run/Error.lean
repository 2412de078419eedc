import Provision.Host.Error
import Provision.Plan.Error
import Provision.Store.Error

/-!
# Errors of a run

What can stop a run before it begins, or keep it from being recorded. A step
that fails is not an error of the run: it is part of its report.

* `RunError.message`: the error in words.
* `RunError.isPlanning`: the error was found before anything was touched.
-/

namespace Provision

/-- Why a run could not be made or recorded. -/
inductive RunError where
  | plan (error : PlanError)
  | store (error : StoreError)
  | host (error : HostError)
  | duplicateStep (id : String)
  | duplicateMountTarget (first second : String) (target : Path)
  | unknownDependency (step dependency : String)
  | cycle (steps : List String)
  | unknownStep (id : String)
  | locked (file : Path)
  | io (error : IoError)
deriving DecidableEq, Inhabited, Repr

namespace RunError

/-- The error in words. -/
def message : RunError → String
  | plan e => "plan error: " ++ e.message
  | store e => "store error: " ++ e.message
  | host e => "host error: " ++ e.message
  | duplicateStep id => "plan error: duplicate step '" ++ id ++ "'"
  | duplicateMountTarget first second target =>
    "plan error: steps '" ++ first ++ "' and '" ++ second ++ "' both mount " ++ target.text
  | unknownDependency step dependency =>
    "plan error: step '" ++ step ++ "' depends on unknown step '" ++ dependency ++ "'"
  | cycle steps => "plan error: dependency cycle among steps: " ++ ", ".intercalate steps
  | unknownStep id => "plan error: cannot skip unknown step '" ++ id ++ "'"
  | locked file => "run lock: another run holds " ++ file.text
  | io e => "I/O error: " ++ e.message

/-- Whether the error was found before anything on the host was touched. -/
def isPlanning : RunError → Bool
  | plan _ | duplicateStep _ | duplicateMountTarget .. | unknownDependency .. | cycle _
  | unknownStep _ => true
  | store _ | host _ | locked _ | io _ => false

end RunError

end Provision
