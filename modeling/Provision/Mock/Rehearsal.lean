import Provision.Mock.Host

/-!
# Rehearsals

A host in memory that can be told what goes wrong: calls that fail, mounts that
turn out other than requested, units that are stuck in a state, and a moment at
which the operator loses patience.

* `Mock.Rule`: a call that fails after a while, for a while.
* `Mock.Rehearsal.answer`: the reply to a call, and the rehearsal after it.
-/

namespace Provision

/-- The name of a call, as rules use it. -/
def HostCall.name : HostCall → String
  | find _ => "find"
  | mount _ => "mount"
  | unmount _ => "unmount"
  | unitState _ => "unit_state"
  | issue op _ | undo op _ => op.name
  | reloadManager => "daemon_reload"

/-- What a call is about: a target or a unit. -/
def HostCall.subject : HostCall → String
  | find target | unmount target => target.text
  | mount spec => spec.target.text
  | unitState unit | issue _ unit | undo _ unit => unit
  | reloadManager => ""

namespace Mock

/-- A call that fails after a while, for a while. -/
structure Rule where
  call : String
  /-- What the call is about, when that matters. -/
  subject : Option String := none
  /-- How many calls pass before one fails. -/
  skip : Nat := 0
  /-- How many calls fail. -/
  times : Nat := 1
  error : HostError
deriving DecidableEq, Inhabited, Repr

namespace Rule

/-- Whether a rule acts on a call. -/
def applies (r : Rule) (c : HostCall) : Bool :=
  r.call = c.name && r.subject.all (· = c.subject) && 0 < r.skip + r.times

/-- What a rule does to a call it acts on, and the rule after it. -/
def act (r : Rule) : Option HostError × Rule :=
  if 0 < r.skip then (none, { r with skip := r.skip - 1 })
  else (some r.error, { r with times := r.times - 1 })

/-- What the first rule that acts does to a call, and the rules after it. -/
def actFirst (c : HostCall) : List Rule → Option HostError × List Rule
  | [] => (none, [])
  | r :: rest =>
    if r.applies c then (r.act.1, r.act.2 :: rest)
    else ((actFirst c rest).1, r :: (actFirst c rest).2)

end Rule

/-- What mounting does. -/
inductive Mounting where
  /-- It adds what is requested. -/
  | faithful
  /-- It adds what is requested, changed in some way. -/
  | altered (change : MountSpec → MountSpec)
  /-- It succeeds without adding anything. -/
  | idle

/-- A host in memory that has been told what goes wrong. -/
structure Rehearsal where
  host : Host := {}
  rules : List Rule := []
  mounting : Mounting := .faithful
  /-- The units that are stuck, with what is reported of them. -/
  stuck : List (String × UnitState) := []
  /-- The call, by name and subject, that makes the operator want to stop. -/
  lastStraw : Option (String × String) := none
  /-- The operator wants to stop. -/
  stopping : Bool := false

namespace Rehearsal

/-- The reply to a call that no rule keeps from the host. -/
def pass : (c : HostCall) → Rehearsal → c.Reply × Rehearsal
  | .mount spec, r =>
    match r.mounting with
    | .faithful =>
      let (reply, host) := Host.answer (.mount spec) r.host
      (reply, { r with host })
    | .altered change =>
      let entries := r.host.table.entries ++ [.ofSpec (change spec)]
      (.ok (), { r with host.table.entries := entries })
    | .idle => (.ok (), r)
  | .unitState unit, r =>
    match r.stuck.lookup unit with
    | some state => (.ok state, r)
    | none => (.ok (r.host.manager.state unit), r)
  | c, r =>
    let (reply, host) := Host.answer c r.host
    (reply, { r with host })

/-- Notice a mount or a call on a unit that makes the operator want to stop. -/
def notice (c : HostCall) (r : Rehearsal) : Rehearsal :=
  match c with
  | .find _ | .unmount _ => r
  | c => if r.lastStraw = some (c.name, c.subject) then { r with stopping := true } else r

/-- The reply to a call, and the rehearsal after it. -/
def answer (c : HostCall) (r : Rehearsal) : c.Reply × Rehearsal :=
  let r := r.notice c
  match Rule.actFirst c r.rules with
  | (some e, rules) => (.error e, { r with rules })
  | (none, rules) => pass c { r with rules }

end Rehearsal

end Mock

end Provision
