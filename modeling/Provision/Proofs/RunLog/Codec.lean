import Provision.Proofs.Json.Printing
import Provision.RunLog.Codec

/-!
# A stored run log is the run log

Each type that a run log is made of is decoded from its encoding: choices that are named, choices
with a tag beside their fields, results with their content beside their name, and fields that are
left out.

* `Plain.isReadable`: nothing that is written is unreadable, so a tag may stand anywhere.
* `asList_map`, `choice_name`: a list, and the name of a choice.
* `StepAction.ofJson_toJson`, `StepResult.ofJson_toJson`, `LogEntry.ofJson_toJson`,
  `RunLog.ofJson_toJson`: the types, from the inside out.
* `RunLog.parse_render`: **the stored form of every run log is decoded to that run log.**
-/

namespace Provision

open Json

namespace Json

theorem areReadable_iff : ∀ {items : List Json}, areReadable items = true ↔ ∀ j ∈ items, j.isReadable = true
  | [] => by simp [areReadable]
  | j :: items => by simp [areReadable, areReadable_iff]

theorem membersReadable_iff : ∀ {members : List (String × Json)},
    membersReadable members = true ↔ ∀ m ∈ members, m.2.isReadable = true
  | [] => by simp [membersReadable]
  | m :: members => by
    simp only [membersReadable, Bool.and_eq_true, membersReadable_iff, List.forall_mem_cons]

/-- Nothing that is written is unreadable. -/
theorem Plain.isReadable {n : Nat} {j : Json} (h : Plain n j) : j.isReadable = true := by
  induction h with
  | null | bool | string => rfl
  | array _ ih => exact areReadable_iff.2 ih
  | object _ ih => exact membersReadable_iff.2 ih

theorem Plain.strings (n : Nat) (items : List String) : Plain (n + 1) (Json.strings items) :=
  .array fun j hj => by
    obtain ⟨s, -, rfl⟩ := List.mem_map.1 hj
    exact .string n s

theorem Plain.mono {n k : Nat} {j : Json} (h : Plain n j) (hle : n ≤ k) : Plain k j := by
  induction h generalizing k with
  | null => exact .null k
  | bool _ b => exact .bool k b
  | string _ s => exact .string k s
  | array _ ih =>
    obtain ⟨k, rfl⟩ : ∃ i, k = i + 1 := ⟨k - 1, by omega⟩
    exact .array fun j hj => ih j hj (by omega)
  | object _ ih =>
    obtain ⟨k, rfl⟩ : ∃ i, k = i + 1 := ⟨k - 1, by omega⟩
    exact .object fun m hm => ih m hm (by omega)

/-- A member that may be left out. -/
theorem Plain.member? {α : Type} {n : Nat} (key : String) (value : Option α) {encode : α → Json}
    (h : ∀ a, Plain n (encode a)) : ∀ m ∈ member? key (value.map encode), Plain n m.2 := by
  cases value with
  | none => nofun
  | some a => exact List.forall_mem_singleton.2 (h a)

/-- A list is decoded from the encodings of its elements. -/
theorem asList_map {α : Type} {decode : Json → Except Fault α} {encode : α → Json} {xs : List α}
    (h : ∀ x ∈ xs, decode (encode x) = .ok x) : asList decode (.array (xs.map encode)) = .ok xs :=
  mapM_map_eq_ok h

theorem asList_strings (items : List String) : asList asString (strings items) = .ok items :=
  asList_map fun _ _ => rfl

theorem required_of_lookup {α : Type} {name : String} {decode : Json → Except Fault α}
    {fields : List (String × Json)} {j : Json} {a : α} (hlookup : fields.lookup name = some j)
    (hdecode : decode j = .ok a) : required name decode fields = .ok a := by
  simp only [required, hlookup, hdecode]

/-- A field that is left out when it is absent, and never written as `null`. -/
theorem optional_of_lookup {α : Type} {name : String} {decode : Json → Except Fault α}
    {encode : α → Json} {fields : List (String × Json)} {value : Option α}
    (hlookup : fields.lookup name = value.map encode) (hnull : ∀ a, encode a ≠ .null)
    (hdecode : ∀ a, decode (encode a) = .ok a) : Json.optional name decode fields = .ok value := by
  unfold Json.optional
  rw [hlookup]
  cases value with
  | none => rfl
  | some a =>
    rw [Option.map_some]
    split
    · contradiction
    · rename_i hj
      exact absurd (Option.some.inj hj) (hnull a)
    · rename_i j _ hj
      obtain rfl := Option.some.inj hj
      rw [hdecode]
      rfl

/-- A choice is decoded from its name. -/
theorem choice_name {α : Type} {choices : List (String × α)} {name : String} {a : α}
    (h : choices.lookup name = some a) (buffered : Bool) :
    choice buffered choices (.string name) = .ok a := by
  simp only [choice, named, h]

/-- A tag stands before the fields of what it tags. -/
theorem tagged_cons (tag name : String) {fields : List (String × Json)} {n : Nat}
    (htag : ∀ m ∈ fields, m.1 ≠ tag) (hplain : ∀ m ∈ fields, Plain n m.2) :
    tagged tag (.object ((tag, .string name) :: fields)) = .ok (.string name, .object fields) := by
  have hothers : fields.filter (·.1 = tag) = [] :=
    List.filter_eq_nil_iff.2 fun m hm => by simpa using htag m hm
  have hfields : fields.filter (·.1 ≠ tag) = fields :=
    List.filter_eq_self.2 fun m hm => by simpa using htag m hm
  have hreadable : (Json.object fields).isReadable = true := (Plain.object hplain).isReadable
  simp only [tagged, List.filter_cons, decide_true, if_true, hothers, ne_eq, not_true_eq_false,
    decide_false, Bool.false_eq_true, if_false, hfields, bind, Except.bind, hreadable]

end Json

section Actions

theorem MountSpec.plain_fields (spec : MountSpec) : ∀ m ∈ spec.fields, Plain 1 m.2 := by
  intro m hm
  simp only [fields, List.mem_cons, List.not_mem_nil, or_false] at hm
  rcases hm with rfl | rfl | rfl | rfl
  · exact .string 1 _
  · exact .string 1 _
  · exact .string 1 _
  · exact .strings 0 _

theorem MountSpec.ofJson_fields (spec : MountSpec) : ofJson (.object spec.fields) = .ok spec := by
  simp only [ofJson, bind_eq_ok]
  exact ⟨spec.fields, rfl, _, rfl, _, rfl, _, rfl, _, asList_strings spec.options, rfl⟩

theorem ServiceUnit.plain_fields (unit : ServiceUnit) : ∀ m ∈ unit.fields, Plain 1 m.2 := by
  simp only [fields, List.forall_mem_append, List.forall_mem_cons]
  exact ⟨⟨⟨⟨.string 1 _, Plain.member? _ _ (.bool 1)⟩, Plain.member? _ _ (.bool 1)⟩, .bool 1 _, nofun⟩,
    Plain.member? _ _ fun _ => .string 1 _⟩

theorem ServiceUnit.ofJson_fields (buffered : Bool) (unit : ServiceUnit) :
    ofJson buffered (.object unit.fields) = .ok unit := by
  obtain ⟨name, enabled, active, reload, refresh⟩ := unit
  simp only [ofJson, bind_eq_ok]
  refine ⟨fields ⟨name, enabled, active, reload, refresh⟩, ?_, name, ?_, enabled, ?_, active, ?_,
    reload, ?_, refresh, ?_, rfl⟩
  all_goals cases enabled <;> cases active
  all_goals cases refresh with
    | none => rfl
    | some refresh => cases refresh <;> rfl

theorem StepAction.plain_toJson (action : StepAction) : Plain 2 action.toJson := by
  cases action with
  | mount spec => exact .object (List.forall_mem_cons.2 ⟨.string 1 _, spec.plain_fields⟩)
  | service unit => exact .object (List.forall_mem_cons.2 ⟨.string 1 _, unit.plain_fields⟩)

theorem StepAction.ofJson_toJson (buffered : Bool) (action : StepAction) :
    ofJson buffered action.toJson = .ok action := by
  cases action with
  | mount spec =>
    have htagged := tagged_cons "kind" "mount" (by simp [MountSpec.fields]) spec.plain_fields
    simp only [ofJson, bind_eq_ok]
    exact ⟨_, htagged, true, rfl, map_eq_ok.2 ⟨spec, spec.ofJson_fields, rfl⟩⟩
  | service unit =>
    have hkeys : ∀ m ∈ unit.fields, m.1 ≠ "kind" := by
      obtain ⟨name, enabled, active, reload, refresh⟩ := unit
      cases enabled <;> cases active <;> cases refresh <;> simp [ServiceUnit.fields, Json.member?]
    have htagged := tagged_cons "kind" "service" hkeys unit.plain_fields
    simp only [ofJson, bind_eq_ok]
    exact ⟨_, htagged, false, rfl, map_eq_ok.2 ⟨unit, unit.ofJson_fields true, rfl⟩⟩

end Actions

section Outcomes

theorem Change.plain_toJson (change : Change) : Plain 2 change.toJson := by
  cases change with
  | mount mounted => exact .object (List.forall_mem_cons.2 ⟨.string 1 _, by simpa using .bool 1 mounted⟩)
  | service ops =>
    exact .object (List.forall_mem_cons.2 ⟨.string 1 _, List.forall_mem_singleton.2 (.strings 0 _)⟩)

theorem Change.ofJson_toJson (buffered : Bool) (change : Change) :
    ofJson buffered change.toJson = .ok change := by
  cases change with
  | mount mounted =>
    have hplain : ∀ m ∈ [("mounted", Json.bool mounted)], Plain 0 m.2 :=
      List.forall_mem_singleton.2 (.bool 0 mounted)
    have htagged := tagged_cons "kind" "mount" (by simp) hplain
    simp only [ofJson, bind_eq_ok]
    exact ⟨_, htagged, true, rfl, rfl⟩
  | service ops =>
    have hplain : ∀ m ∈ [("ops", Json.strings (ops.map UnitOp.name))], Plain 1 m.2 :=
      List.forall_mem_singleton.2 (.strings 0 _)
    have htagged := tagged_cons "kind" "service" (by simp) hplain
    have hops : asList (choice true UnitOp.byName) (.strings (ops.map UnitOp.name)) = .ok ops := by
      rw [Json.strings, List.map_map]
      exact asList_map fun op _ => choice_name op.lookup_byName true
    simp only [ofJson, bind_eq_ok]
    exact ⟨_, htagged, false, rfl, map_eq_ok.2 ⟨ops, hops, rfl⟩⟩

theorem Failure.plain_toJson (failure : Failure) : Plain 1 failure.toJson :=
  .object (List.forall_mem_cons.2 ⟨.string 0 _, List.forall_mem_singleton.2 (.string 0 _)⟩)

theorem Failure.ofJson_toJson (buffered : Bool) (failure : Failure) :
    ofJson buffered failure.toJson = .ok failure := by
  simp only [ofJson, bind_eq_ok]
  exact ⟨_, rfl, _, choice_name failure.kind.lookup_byName buffered, _, rfl, rfl⟩

theorem StepResult.plain_toJson (result : StepResult) : Plain 3 result.toJson := by
  refine .object (List.forall_mem_cons.2 ⟨.string 2 _, ?_⟩)
  cases result with
  | applied change => exact List.forall_mem_singleton.2 change.plain_toJson
  | failed failure => exact List.forall_mem_singleton.2 (failure.plain_toJson.mono (by omega))
  | rollbackFailed failure => exact List.forall_mem_singleton.2 (failure.plain_toJson.mono (by omega))
  | pending | rolledBack | skipped => nofun

theorem StepResult.ofJson_toJson (result : StepResult) : ofJson result.toJson = .ok result := by
  cases result with
  | pending | rolledBack | skipped => rfl
  | applied change =>
    exact map_eq_ok.2 ⟨change, change.ofJson_toJson false, rfl⟩
  | failed failure => exact map_eq_ok.2 ⟨failure, failure.ofJson_toJson false, rfl⟩
  | rollbackFailed failure => exact map_eq_ok.2 ⟨failure, failure.ofJson_toJson false, rfl⟩

end Outcomes

section Logs

theorem RunStatus.plain_toJson (status : RunStatus) : Plain 1 status.toJson := by
  cases status with
  | aborted cause => exact .object (List.forall_mem_singleton.2 (.string 0 _))
  | notStarted | running | completed => exact .string 1 _

theorem RunStatus.ofJson_toJson (status : RunStatus) : ofJson status.toJson = .ok status := by
  cases status with
  | aborted cause => cases cause <;> rfl
  | notStarted | running | completed => rfl

theorem InFlight.plain_toJson (f : InFlight) : Plain 3 f.toJson := by
  refine .object ?_
  simp only [List.forall_mem_cons]
  exact ⟨.string 2 _, f.action.plain_toJson, .string 2 _, nofun⟩

theorem InFlight.ofJson_toJson (f : InFlight) : ofJson f.toJson = .ok f := by
  simp only [ofJson, bind_eq_ok]
  exact ⟨_, rfl, _, rfl, _, f.action.ofJson_toJson false, _, rfl, rfl⟩

theorem StepFailure.plain_toJson (f : StepFailure) : Plain 2 f.toJson := by
  refine .object ?_
  simp only [List.forall_mem_cons]
  exact ⟨.string 1 _, f.failure.plain_toJson, nofun⟩

theorem StepFailure.ofJson_toJson (f : StepFailure) : ofJson f.toJson = .ok f := by
  simp only [ofJson, bind_eq_ok]
  exact ⟨_, rfl, _, rfl, _, f.failure.ofJson_toJson false, rfl⟩

theorem LogEntry.plain_toJson (e : LogEntry) : Plain 4 e.toJson := by
  refine .object ?_
  simp only [List.forall_mem_append, List.forall_mem_cons]
  exact ⟨⟨⟨.string 3 _, e.result.plain_toJson, nofun⟩,
    Plain.member? _ _ fun action => action.plain_toJson.mono (by omega)⟩, .string 3 _, nofun⟩

theorem LogEntry.ofJson_toJson (e : LogEntry) : ofJson e.toJson = .ok e := by
  obtain ⟨step, result, action, recorded⟩ := e
  have haction : ∀ a : StepAction, (some <$> StepAction.ofJson false a.toJson) = .ok (some a) :=
    fun a => map_eq_ok.2 ⟨a, a.ofJson_toJson false, rfl⟩
  simp only [ofJson, bind_eq_ok]
  cases action with
  | none => exact ⟨_, rfl, _, rfl, _, result.ofJson_toJson, _, rfl, _, rfl, rfl⟩
  | some a => exact ⟨_, rfl, _, rfl, _, result.ofJson_toJson, _, haction a, _, rfl, rfl⟩

namespace RunLog

/-- A run log has six levels. -/
theorem plain_toJson (log : RunLog) : Plain 6 log.toJson := by
  refine .object ?_
  simp only [List.forall_mem_append, List.forall_mem_cons]
  refine ⟨⟨⟨⟨⟨⟨.string 5 _, .string 5 _, nofun⟩, Plain.member? _ _ (.string 5)⟩, ?_, .strings 4 _, nofun⟩,
    Plain.member? _ _ ?_⟩, Plain.member? _ _ ?_⟩, .array ?_, nofun⟩
  · exact log.status.plain_toJson.mono (by omega)
  · exact fun f => f.plain_toJson.mono (by omega)
  · exact fun f => f.plain_toJson.mono (by omega)
  · intro j hj
    obtain ⟨e, -, rfl⟩ := List.mem_map.1 hj
    exact e.plain_toJson

/-- The fields that are taken from a stored run log, whichever of them were left out. -/
theorem record_toJson (log : RunLog) : ∃ fields,
    record ["run_id", "started_at", "finished_at", "status", "plan", "in_flight", "failure",
      "entries"] log.toJson = .ok fields ∧
    fields.lookup "run_id" = some (.string log.runId) ∧
    fields.lookup "started_at" = some (.string log.startedAt) ∧
    fields.lookup "finished_at" = log.finishedAt.map .string ∧
    fields.lookup "status" = some log.status.toJson ∧
    fields.lookup "plan" = some (.strings log.plan) ∧
    fields.lookup "in_flight" = log.inFlight.map InFlight.toJson ∧
    fields.lookup "failure" = log.failure.map StepFailure.toJson ∧
    fields.lookup "entries" = some (.array (log.entries.map LogEntry.toJson)) := by
  obtain ⟨runId, startedAt, finishedAt, status, plan, inFlight, failure, entries⟩ := log
  cases finishedAt <;> cases inFlight <;> cases failure <;>
    exact ⟨_, rfl, rfl, rfl, rfl, rfl, rfl, rfl, rfl, rfl⟩

theorem ofJson_toJson (log : RunLog) : ofJson log.toJson = .ok log := by
  obtain ⟨fields, hrecord, hrunId, hstarted, hfinished, hstatus, hplan, hinFlight, hfailure, hentries⟩ :=
    log.record_toJson
  have hlist : asList LogEntry.ofJson (.array (log.entries.map LogEntry.toJson)) = .ok log.entries :=
    asList_map fun e _ => e.ofJson_toJson
  simp only [ofJson, bind_eq_ok]
  refine ⟨fields, hrecord, log.runId, ?_, log.startedAt, ?_, log.finishedAt, ?_, log.status, ?_,
    log.plan, ?_, log.inFlight, ?_, log.failure, ?_, log.entries, ?_, rfl⟩
  · exact required_of_lookup hrunId rfl
  · exact required_of_lookup hstarted rfl
  · exact optional_of_lookup hfinished nofun fun _ => rfl
  · exact required_of_lookup hstatus log.status.ofJson_toJson
  · exact required_of_lookup hplan (asList_strings log.plan)
  · exact optional_of_lookup hinFlight nofun InFlight.ofJson_toJson
  · exact optional_of_lookup hfailure nofun StepFailure.ofJson_toJson
  · simp only [withDefault, hentries, hlist]

/-- **The stored form of every run log is decoded to that run log.** -/
theorem parse_render (log : RunLog) : parse log.render = .ok log := by
  rw [parse, render, parse_pretty (log.plain_toJson.mono (by decide))]
  exact log.ofJson_toJson

end RunLog

end Logs

end Provision
