import Provision.IoError
import Provision.Path
import Provision.Toml.Value

/-!
# Errors of plan files

* `PlanError.message`: the error in words.
-/

namespace Provision

/-- The version of the plan format. -/
def planVersion : Nat := 1

/-- Why a text is not a plan. -/
inductive PlanError where
  | io (error : IoError)
  | malformed (fault : Toml.Fault)
  | unsupportedVersion (version : Nat)
  | empty
  | emptyStepId
  | invalidStepId (id : String)
  | relativeMountTarget (step : String) (target : Path)
  | emptyMountField (step field : String)
  | emptyUnitName (step : String)
  | noDesiredState (step : String)
  | unknownStepKey (step key : String)
deriving DecidableEq, Inhabited, Repr

/-- The error in words. -/
def PlanError.message : PlanError → String
  | io e => "failed to read plan file: " ++ e.message
  | malformed fault => "failed to parse plan file: " ++ fault.message
  | unsupportedVersion version =>
    "unsupported plan_version: " ++ toString version ++ ", expected " ++ toString planVersion
  | empty => "plan declares no steps"
  | emptyStepId => "step id must not be empty"
  | invalidStepId id => "invalid step id '" ++ id ++ "': ids may not contain whitespace"
  | relativeMountTarget step target =>
    "step '" ++ step ++ "': mount target must be an absolute path, got '" ++ target.text ++ "'"
  | emptyMountField step field =>
    "step '" ++ step ++ "': mount " ++ field ++ " must not be empty"
  | emptyUnitName step => "step '" ++ step ++ "': unit name must not be empty"
  | noDesiredState step =>
    "step '" ++ step ++
      "': service step declares no desired state (set enabled, active, refresh or daemon_reload)"
  | unknownStepKey step key => "step '" ++ step ++ "': unknown key '" ++ key ++ "'"

end Provision
