import Provision.Host.Error
import Provision.Units.State

/-!
# A service manager in memory

Units are enabled or not, and active or not. A call can be told to fail a
number of times; one whose reply is lost takes effect and fails nevertheless.

* `Mock.Manager.issue`: an operation on a unit.
* `Mock.Manager.state`: what is reported of a unit.
* `Mock.Manager.failTimes`: tell a call to fail.
-/

namespace Provision.Mock

/-- A unit of the manager in memory. -/
structure Flags where
  enabled : Bool := false
  active : Bool := false
deriving DecidableEq, Inhabited, Repr

/-- How a call can be told to fail. -/
inductive Mishap where
  | unreachable
  | rejected
  | noSuchUnit
  /-- The operation takes effect, but its reply is lost. -/
  | lostReply
deriving DecidableEq, Inhabited, Repr

namespace Mishap

/-- Every mishap with its name. -/
def byName : List (String × Mishap) :=
  [("unreachable", unreachable), ("rejected", rejected), ("no_such_unit", noSuchUnit),
    ("lost_reply", lostReply)]

/-- The error that is seen. -/
def error (unit : String) (op : UnitOp) : Mishap → HostError
  | unreachable | lostReply =>
    .unreachable (op.name ++ " " ++ unit ++ ": method call timed out")
  | rejected => .rejected unit op.name "org.freedesktop.systemd1.UnitMasked"
  | noSuchUnit => .noSuchUnit unit

end Mishap

/-- A call that was told to fail, and how often it still will. -/
structure Scripted where
  op : UnitOp
  unit : String
  mishap : Mishap
  left : Nat
deriving DecidableEq, Inhabited, Repr

/-- A service manager in memory. -/
structure Manager where
  units : List (String × Flags) := []
  /-- Every operation that arrived, in order. -/
  journal : List (UnitOp × String) := []
  scripted : List Scripted := []
  reloads : Nat := 0
  /-- Every unit exists. -/
  lenient : Bool := false
deriving DecidableEq, Inhabited, Repr

namespace Manager

/-- The unit with a name. -/
def unit? (m : Manager) (name : String) : Option Flags :=
  (m.units.lookup name).or (if m.lenient then some {} else none)

/-- The manager with the flags of a unit set. -/
def setUnit (m : Manager) (name : String) (flags : Flags) : Manager :=
  { m with units := (name, flags) :: m.units.filter (·.1 ≠ name) }

/-- Tell the next calls of an operation on a unit to fail. -/
def failTimes (m : Manager) (op : UnitOp) (unit : String) (mishap : Mishap) (times : Nat) :
    Manager :=
  { m with
    scripted := ⟨op, unit, mishap, times⟩ ::
      m.scripted.filter fun s => !(s.op = op && s.unit = unit) }

/-- What is reported of a unit. -/
def state (m : Manager) (name : String) : UnitState :=
  match m.unit? name with
  | some u =>
    ⟨"loaded", if u.active then "active" else "inactive",
      if u.enabled then "enabled" else "disabled"⟩
  | none => ⟨"not-found", "inactive", ""⟩

/-- What an operation makes of a unit. -/
def effect (name : String) (u : Flags) : UnitOp → Except HostError Flags
  | .enable => .ok { u with enabled := true }
  | .disable => .ok { u with enabled := false }
  | .start | .restart => .ok { u with active := true }
  | .stop => .ok { u with active := false }
  | .reload =>
    if u.active then .ok u
    else .error (.rejected name "reload" "org.freedesktop.systemd1.UnitInactive")

/-- The mishap of an operation on a unit that is next, if any. -/
def mishap? (m : Manager) (op : UnitOp) (unit : String) : Option Mishap :=
  (m.scripted.find? fun s => s.op = op && s.unit = unit && 0 < s.left).map (·.mishap)

/-- The manager after an operation on a unit arrived. -/
def arrived (m : Manager) (op : UnitOp) (unit : String) : Manager :=
  { m with
    journal := m.journal ++ [(op, unit)]
    scripted := m.scripted.map fun s =>
      if s.op = op && s.unit = unit then { s with left := s.left - 1 } else s }

/-- Carry out an operation on a unit. -/
def carryOut (op : UnitOp) (name : String) (m : Manager) : Except HostError Unit × Manager :=
  match m.unit? name with
  | none => (.error (.noSuchUnit name), m)
  | some u =>
    match effect name u op with
    | .ok u => (.ok (), m.setUnit name u)
    | .error e => (.error e, m.setUnit name u)

/-- An operation on a unit. -/
def issue (op : UnitOp) (name : String) (m : Manager) : Except HostError Unit × Manager :=
  match m.mishap? op name with
  | none => (m.arrived op name).carryOut op name
  | some .lostReply =>
    match (m.arrived op name).carryOut op name with
    | (.ok (), m) => (.error (Mishap.lostReply.error name op), m)
    | (.error e, m) => (.error e, m)
  | some mishap => (.error (mishap.error name op), m.arrived op name)

/-- Read the configuration again. -/
def reload (m : Manager) : Manager := { m with reloads := m.reloads + 1 }

end Manager

end Provision.Mock
