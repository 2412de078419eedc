import Mathlib.Logic.Function.Basic
import Provision.Mount.Manage
import Provision.Proofs.Action.Requests

/-!
# Mounting with a table that may fail

A mount table keeps the file systems that are mounted at each place. Every call may fail, and a file
system that has been mounted may turn out to be any other, or none.

* `Mount.fallible`: the setting, of which the table and the calls are seen.
* `ensures_inspect_fallible`, `ensures_unmount_fallible`: looking changes nothing; unmounting takes
  down what is on top, or fails and changes nothing.
* `Mount.Careful`, `Mount.Ended`: where mounting may have come to, and what its result says.
* `mount_careful`: **what was mounted stays on top, and nothing is left behind but what could not be
  taken down again, as the error says.**
-/

namespace Provision

namespace Mount

open Script

/-- What is mounted at each place, the file system on top last. -/
abbrev Stacks := List Path.Component → List MountEntry

/-- A call that has been made, and its reply. -/
structure Exchange where
  call : HostCall
  reply : call.Reply

/-- The table, what the paths were last found to lead to, and the calls so far. -/
structure Scene where
  table : Stacks
  links : Path → Option Path
  past : List Exchange

/-- The table without what is on top at a place. -/
def Stacks.lowered (t : Stacks) (target : Path) : Stacks :=
  Function.update t target.components (t target.components).dropLast

/-- The table with some file systems more on top at a place. -/
def Stacks.raised (t : Stacks) (target : Path) (new : List MountEntry) : Stacks :=
  Function.update t target.components (t target.components ++ new)

/-- What may come of a call. -/
inductive Replies : (c : HostCall) → Stacks → c.Reply → Stacks → Prop
  /-- Any call may fail, and has no effect then. -/
  | failed {c : HostCall} {t : Stacks} (e : HostError) : Replies c t (.error e) t
  | found (t : Stacks) (target : Path) :
      Replies (.find target) t (.ok (t target.components).getLast?) t
  /-- At most one file system is added, and it may be any. -/
  | mounted (t : Stacks) (spec : MountSpec) (new : Option MountEntry) :
      Replies (.mount spec) t (.ok ()) (t.raised spec.target new.toList)
  | unmounted (t : Stacks) (target : Path) :
      Replies (.unmount target) t (.ok ()) (t.lowered target)

variable {t t' : Stacks} {target : Path} {spec : MountSpec}

theorem Replies.find {x : (HostCall.find target).Reply} (h : Replies (.find target) t x t') :
    t' = t ∧ ∀ found, x = .ok found → found = (t target.components).getLast? := by
  cases h with
  | failed e => exact ⟨rfl, fun _ => nofun⟩
  | found => exact ⟨rfl, fun _ h => (Except.ok.inj h).symm⟩

theorem Replies.mount {x : (HostCall.mount spec).Reply} (h : Replies (.mount spec) t x t') :
    (∃ e, x = .error e ∧ t' = t) ∨ x = .ok () ∧ ∃ new : Option MountEntry,
      t' = t.raised spec.target new.toList := by
  cases h with
  | failed e => exact .inl ⟨e, rfl, rfl⟩
  | mounted _ _ new => exact .inr ⟨rfl, new, rfl⟩

theorem Replies.unmount {x : (HostCall.unmount target).Reply}
    (h : Replies (.unmount target) t x t') :
    (∃ e, x = .error e ∧ t' = t) ∨ x = .ok () ∧ t' = t.lowered target := by
  cases h with
  | failed e => exact .inl ⟨e, rfl, rfl⟩
  | unmounted => exact .inr ⟨rfl, rfl⟩

/-- The setting in which every call may fail. -/
def fallible : Setting Effect.interface Scene
  | s, .host c, x, s' =>
    Replies c s.table x s'.table ∧ s'.links = s.links ∧ s'.past = s.past ++ [⟨c, x⟩]
  | s, .resolve _, links, s' => s' = { s with links }
  | s, _, _, s' => s' = s

theorem fallible_host (s : Scene) {c : HostCall} {x : c.Reply} {t : Stacks}
    (h : Replies c s.table x t) :
    fallible s (.host c) x ⟨t, s.links, s.past ++ [⟨c, x⟩]⟩ := ⟨h, rfl, rfl⟩

/-- No file system is mounted by these calls. -/
def NoneMounted (calls : List Exchange) : Prop := ∀ x ∈ calls, ∀ spec, x.call ≠ .mount spec

theorem NoneMounted.append {calls more : List Exchange} (h : NoneMounted calls)
    (h' : NoneMounted more) : NoneMounted (calls ++ more) := fun x hx =>
  (List.mem_append.1 hx).elim (h x) (h' x)

theorem noneMounted_find (target : Path) (reply : (HostCall.find target).Reply) :
    NoneMounted [⟨.find target, reply⟩] := by
  intro x hx spec
  rw [List.mem_singleton.1 hx]
  exact HostCall.noConfusion

theorem noneMounted_unmount (target : Path) (reply : (HostCall.unmount target).Reply) :
    NoneMounted [⟨.unmount target, reply⟩] := by
  intro x hx spec
  rw [List.mem_singleton.1 hx]
  exact HostCall.noConfusion

/-! ### Looking and unmounting -/

/-- Calls have been made that mount nothing. -/
def Quietly (s t : Scene) : Prop := ∃ more, t.past = s.past ++ more ∧ NoneMounted more

theorem Quietly.refl (s : Scene) : Quietly s s :=
  ⟨[], (List.append_nil _).symm, fun _ h => nomatch h⟩

theorem Quietly.trans {s t u : Scene} (h : Quietly s t) (h' : Quietly t u) : Quietly s u := by
  obtain ⟨more, hmore, hnone⟩ := h
  obtain ⟨more', hmore', hnone'⟩ := h'
  exact ⟨more ++ more', by rw [hmore', hmore, List.append_assoc], hnone.append hnone'⟩

/-- The table has only been looked at. -/
def Looked (s t : Scene) : Prop := t.table = s.table ∧ Quietly s t

/-- What looking at the table tells of a request. -/
def Tells (spec : MountSpec) (s : Scene) : Except HostError MountStatus → Scene → Prop
  | .ok .absent, t =>
    s.table spec.target.components = [] ∧ t.past = s.past ++ [⟨.find spec.target, .ok none⟩]
  | .ok .matching, t => ∃ e, (s.table spec.target.components).getLast? = some e ∧
      e.satisfies t.links spec = true
  | .ok (.conflicting _), _ | .error _, _ => True

/-- Looking changes nothing, and tells what there is. -/
theorem ensures_inspect_fallible (spec : MountSpec) (s : Scene) :
    (inspect spec).Ensures fallible (Looked s) (fun r t => Looked s t ∧ Tells spec s r t) s := by
  refine ensures_bind.2 ((ensures_call s).2 ⟨⟨rfl, .refl s⟩, ?_⟩)
  rintro x t ⟨hx, -, hpast⟩
  obtain ⟨hstacks, hfound⟩ := hx.find
  have hlooked : Looked s t := ⟨hstacks, [_], hpast, noneMounted_find spec.target x⟩
  refine ⟨hlooked, ?_⟩
  rcases x with e | (_ | entry)
  · exact ⟨hlooked, hlooked, trivial⟩
  · exact ⟨hlooked, hlooked, List.getLast?_eq_none_iff.1 (hfound _ rfl).symm, hpast⟩
  · refine ensures_bind.2 ((ensures_resolutions t).2 ⟨hlooked, ?_⟩)
    rintro links u rfl
    refine ⟨hlooked, hlooked, hlooked, ?_⟩
    by_cases hsat : entry.satisfies links spec = true
    · rw [if_pos hsat]
      exact ⟨entry, (hfound _ rfl).symm, hsat⟩
    · rw [if_neg hsat]
      trivial

/-- Unmounting takes down what is on top, or fails and changes nothing. -/
theorem ensures_unmount_fallible (target : Path) (s : Scene) :
    (unmount target).Ensures fallible
      (fun t => (t.table = s.table ∨ t.table = s.table.lowered target) ∧ Quietly s t)
      (onResult (fun _ t => t.table = s.table.lowered target) fun _ t => t.table = s.table) s := by
  refine ensures_bind.2 ((ensures_call s).2 ⟨⟨.inl rfl, .refl s⟩, ?_⟩)
  rintro x t ⟨hx, -, hpast⟩
  obtain ⟨hstacks, hfound⟩ := hx.find
  have hquiet : Quietly s t := ⟨[_], hpast, noneMounted_find target x⟩
  refine ⟨⟨.inl hstacks, hquiet⟩, ?_⟩
  rcases x with e | (_ | entry)
  · exact ⟨⟨.inl hstacks, hquiet⟩, hstacks⟩
  · -- where nothing is mounted there is nothing to take down
    refine ⟨⟨.inl hstacks, hquiet⟩, hstacks.trans ?_⟩
    have hempty : s.table target.components = [] := List.getLast?_eq_none_iff.1 (hfound _ rfl).symm
    rw [Stacks.lowered, hempty, List.dropLast_nil, ← hempty, Function.update_eq_self]
  · refine ensures_bind.2 ((ensures_call t).2 ⟨⟨.inl hstacks, hquiet⟩, ?_⟩)
    rintro x u ⟨hx, -, hpast'⟩
    have hquiet' : Quietly s u := hquiet.trans ⟨[_], hpast', noneMounted_unmount target x⟩
    rw [hstacks] at hx
    rcases hx.unmount with ⟨e, rfl, hstacks'⟩ | ⟨rfl, hstacks'⟩
    · exact ⟨⟨.inl hstacks', hquiet'⟩, ⟨.inl hstacks', hquiet'⟩, hstacks'⟩
    · exact ⟨⟨.inr hstacks', hquiet'⟩, ⟨.inr hstacks', hquiet'⟩, hstacks'⟩

/-! ### Mounting -/

/-- A file system has been added where none was mounted. -/
def Added (spec : MountSpec) (s t : Scene) (e : MountEntry) : Prop :=
  s.table spec.target.components = [] ∧
    t.table = Function.update s.table spec.target.components [e]

/-- Where mounting may have come to. -/
structure Careful (spec : MountSpec) (s t : Scene) : Prop where
  /-- The table is as it was, or has one file system more. -/
  table : t.table = s.table ∨ ∃ e, Added spec s t e
  /-- What was mounted at a place before is there still, and nothing on top of it. -/
  spared : ∀ place, s.table place ≠ [] → t.table place = s.table place
  /-- No file system has been mounted; or first nothing was found at the target, then the one that
  was asked for was mounted, and none since. -/
  calls : ∃ calls, t.past = s.past ++ calls ∧ (NoneMounted calls ∨ ∃ reply rest,
    calls = ⟨.find spec.target, .ok none⟩ :: ⟨.mount spec, reply⟩ :: rest ∧ NoneMounted rest)

/-- What the result of mounting says. -/
def Ended (spec : MountSpec) (s : Scene) : Except HostError Change → Scene → Prop
  | .ok (.mount false), t => t.table = s.table ∧
      ∃ e, (s.table spec.target.components).getLast? = some e ∧ e.satisfies t.links spec = true
  | .ok (.mount true), t => ∃ e, Added spec s t e ∧ e.satisfies t.links spec = true
  | .ok (.service _), _ => False
  | .error error, t => t.table = s.table ∨ ∃ e, Added spec s t e ∧
      ∃ fault reason, error = .mountFailed spec.target (.leftMounted fault reason)

theorem Added.spared {s t : Scene} {e : MountEntry} (h : Added spec s t e)
    {place : List Path.Component} (hplace : s.table place ≠ []) :
    t.table place = s.table place := by
  rw [h.2]
  refine Function.update_of_ne ?_ _ _
  rintro rfl
  exact hplace h.1

/-- The file system that was asked for has been mounted, once, where nothing was found. -/
def Since (spec : MountSpec) (s t : Scene) : Prop :=
  ∃ reply rest, t.past = s.past ++ ⟨.find spec.target, .ok none⟩ :: ⟨.mount spec, reply⟩ :: rest ∧
    NoneMounted rest

theorem Since.trans {s t u : Scene} (h : Since spec s t) (h' : Quietly t u) : Since spec s u := by
  obtain ⟨reply, rest, hpast, hnone⟩ := h
  obtain ⟨more, hmore, hnone'⟩ := h'
  exact ⟨reply, rest ++ more, by rw [hmore, hpast]; simp, hnone.append hnone'⟩

theorem Looked.careful {s t : Scene} (h : Looked s t) : Careful spec s t := by
  obtain ⟨hstacks, calls, hcalls, hnone⟩ := h
  exact ⟨.inl hstacks, fun _ _ => by rw [hstacks], calls, hcalls, .inl hnone⟩

theorem Since.careful {s t : Scene} (h : Since spec s t)
    (htable : t.table = s.table ∨ ∃ e, Added spec s t e) : Careful spec s t := by
  obtain ⟨reply, rest, hpast, hnone⟩ := h
  refine ⟨htable, fun place hplace => ?_, _, hpast, .inr ⟨reply, rest, rfl, hnone⟩⟩
  rcases htable with h | ⟨e, h⟩
  · rw [h]
  · exact h.spared hplace

theorem raised_of_empty (h : t target.components = []) (new : List MountEntry) :
    t.raised target new = Function.update t target.components new := by
  rw [Stacks.raised, h, List.nil_append]

/-- What was added where nothing was mounted is nothing, or one file system. -/
theorem raised_cases {s u : Scene} {new : Option MountEntry}
    (hempty : s.table spec.target.components = [])
    (h : u.table = s.table.raised spec.target new.toList) :
    u.table = s.table ∨ ∃ e, Added spec s u e := by
  rw [raised_of_empty hempty] at h
  cases new with
  | none => exact .inl (by rw [h, Option.toList_none, ← hempty, Function.update_eq_self])
  | some e => exact .inr ⟨e, hempty, h⟩

/-- Taking down what was added leaves what there was. -/
theorem lowered_raised (hempty : t target.components = []) (new : Option MountEntry) :
    (t.raised target new.toList).lowered target = t := by
  have hdrop : new.toList.dropLast = t target.components := by
    rw [hempty]
    cases new <;> rfl
  rw [raised_of_empty hempty, Stacks.lowered, Function.update_self, Function.update_idem, hdrop,
    Function.update_eq_self]

/-- What does not turn out as requested is taken down, or its error says that it was not. -/
theorem ensures_discard_fallible {s u : Scene} {new : Option MountEntry} (fault : MountFault)
    (hempty : s.table spec.target.components = []) (hsince : Since spec s u)
    (hadded : u.table = s.table.raised spec.target new.toList) :
    (discard spec fault).Ensures fallible (Careful spec s) (Ended spec s) u := by
  have hlowered : u.table.lowered spec.target = s.table := by
    rw [hadded, lowered_raised hempty]
  have hkept : ∀ v : Scene, v.table = u.table → v.table = s.table ∨ ∃ e, Added spec s v e :=
    fun v h => raised_cases hempty (h.trans hadded)
  refine ensures_bind.2 ((ensures_unmount_fallible spec.target u).mono (fun _ _ _ _ _ hx => hx) ?_ ?_)
  · rintro v ⟨hv | hv, hquiet⟩
    · exact (hsince.trans hquiet).careful (hkept v hv)
    · exact (hsince.trans hquiet).careful (.inl (hv.trans hlowered))
  · rintro (e | done) v ⟨-, hquiet⟩ hv
    · refine ⟨(hsince.trans hquiet).careful (hkept v hv), ?_⟩
      rcases hkept v hv with h | ⟨entry, h⟩
      · exact .inl h
      · exact .inr ⟨entry, h, fault, e.message, rfl⟩
    · have hs : v.table = s.table := Eq.trans hv hlowered
      exact ⟨(hsince.trans hquiet).careful (.inl hs), .inl hs⟩

/-- **Mounting ensures it**, whatever fails and whatever is mounted. -/
theorem ensures_mount_fallible (spec : MountSpec) (s : Scene) :
    (mount spec).Ensures fallible (Careful spec s) (Ended spec s) s := by
  refine ensures_bind.2 ((ensures_inspect_fallible spec s).mono (fun _ _ _ _ _ hx => hx)
    (fun _ h => h.careful) ?_)
  rintro (e | (_ | _ | observed)) t - ⟨hlooked, htells⟩
  · exact ⟨hlooked.careful, .inl hlooked.1⟩
  · obtain ⟨hempty, hpast⟩ := htells
    refine ensures_bind.2 ((ensures_call t).2 ⟨hlooked.careful, ?_⟩)
    rintro x u ⟨hx, -, hpast'⟩
    have hsince : Since spec s u :=
      ⟨x, [], by rw [hpast', hpast, List.append_assoc]; rfl, fun _ h => nomatch h⟩
    rw [hlooked.1] at hx
    rcases hx.mount with ⟨e, rfl, hstacks⟩ | ⟨rfl, new, hstacks⟩
    · exact ⟨hsince.careful (.inl hstacks), hsince.careful (.inl hstacks), .inl hstacks⟩
    · have hadded := raised_cases hempty hstacks
      refine ⟨hsince.careful hadded, ensures_bind.2 ((ensures_inspect_fallible spec u).mono
        (fun _ _ _ _ _ hx => hx) (fun v hv => ?_) ?_)⟩
      · refine (hsince.trans hv.2).careful (raised_cases hempty (hv.1.trans hstacks))
      · rintro r v - ⟨⟨hsame, hquiet⟩, htells⟩
        have hsince' := hsince.trans hquiet
        have hstacks' := hsame.trans hstacks
        rcases r with e | (_ | _ | observed)
        · exact ensures_discard_fallible _ hempty hsince' hstacks'
        · exact ensures_discard_fallible _ hempty hsince' hstacks'
        · -- what is found as requested is what was added
          refine ⟨hsince'.careful (raised_cases hempty hstacks'), ?_⟩
          obtain ⟨e, htop, hsat⟩ := htells
          rw [hstacks, raised_of_empty hempty, Function.update_self] at htop
          cases new with
          | none => cases htop
          | some entry =>
            obtain rfl : entry = e := Option.some.inj htop
            exact ⟨entry, ⟨hempty, by rw [hstacks', raised_of_empty hempty]; rfl⟩, hsat⟩
        · exact ensures_discard_fallible _ hempty hsince' hstacks'
  · exact ⟨hlooked.careful, hlooked.1, htells⟩
  · exact ⟨hlooked.careful, .inl hlooked.1⟩

/-- **Mounting overwrites nothing, and leaves nothing behind without saying so.** At every point the
table is as it was or has one file system more where none was mounted, and mounting was called at
most once, after nothing was found. In the end a file system is mounted that is the one asked for, or
the table is as it was; unless the error says that what was mounted could not be taken down again, and
that may happen to any file system. -/
theorem mount_careful (spec : MountSpec) (s : Scene) :
    (∀ q t, (mount spec).Reaches fallible s q t → Careful spec s t) ∧
    (∀ result t, (mount spec).Reaches fallible s (.done result) t → Ended spec s result t) ∧
    ∀ e, s.table spec.target.components = [] → ∃ fault reason t,
      (mount spec).Reaches fallible s
        (.done (.error (.mountFailed spec.target (.leftMounted fault reason)))) t ∧
      Added spec s t e := by
  refine ⟨fun q t hr => ((ensures_mount_fallible spec s).sound hr).now,
    fun result t hr => ((ensures_mount_fallible spec s).sound hr).2, fun e hempty => ?_⟩
  -- the file system is mounted, and neither can it be looked at nor unmounted
  have hfind : Replies (.find spec.target) s.table (.ok none) s.table := by
    have hfound := Replies.found s.table spec.target
    rwa [hempty] at hfound
  have hmount := Replies.mounted s.table spec (some e)
  have hfailed : ∀ t : Stacks, Replies (.find spec.target) t (.error (.backend "")) t :=
    fun _ => .failed _
  refine ⟨_, _, _, .ask (fallible_host s hfind) (.ask (fallible_host _ hmount)
    (.ask (fallible_host _ (hfailed _)) (.ask (fallible_host _ (hfailed _)) (.here _ _)))),
    hempty, ?_⟩
  exact raised_of_empty hempty _

/-- An export is asked for where nothing is mounted, and another one is mounted. -/
def exported : MountSpec := ⟨"nas:/data", ⟨"/data"⟩, "nfs", []⟩

def foreign : MountEntry := ⟨"backup:/data", ⟨"/data"⟩, "nfs", ["rw"]⟩

def bare : Scene := ⟨fun _ => [], some, []⟩

theorem mount_careful_mismatched : ∃ t,
    (mount exported).Reaches fallible bare
      (.done (.error (.mountFailed ⟨"/data"⟩ (.mismatched foreign.describe)))) t ∧
    t.table = bare.table := by
  have hfound : Replies (.find exported.target) (bare.table.raised exported.target [foreign])
      (.ok (some foreign)) (bare.table.raised exported.target [foreign]) := by
    have hfound := Replies.found (bare.table.raised exported.target [foreign]) exported.target
    rwa [raised_of_empty rfl, Function.update_self] at hfound
  obtain ⟨t, hr⟩ : ∃ t, (mount exported).Reaches fallible bare
      (.done (.error (.mountFailed ⟨"/data"⟩ (.mismatched foreign.describe)))) t :=
    ⟨_, .ask (fallible_host bare (.found _ _)) (.ask (fallible_host _ (.mounted _ _ (some foreign)))
      (.ask (fallible_host _ hfound) (.ask (x := some) rfl (.ask (fallible_host _ hfound)
        (.ask (fallible_host _ (.unmounted _ _)) (.here _ _))))))⟩
  refine ⟨t, hr, ?_⟩
  rcases (mount_careful exported bare).2.1 _ t hr with h | ⟨e, -, fault, reason, h⟩
  · exact h
  · cases h

end Mount

end Provision
