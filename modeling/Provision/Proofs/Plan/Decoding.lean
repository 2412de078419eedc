import Provision.Plan.Codec
import Provision.Proofs.Toml.Keys

/-!
# What a plan file says

* `Toml.IsText`, `Toml.AreTexts`: a value says a text, or texts.
* `PlanFile.ReadFrom`, `Step.ReadFrom`, `StepAction.ReadFrom`: what each key of a table stands for,
  and that there are no other keys.
* `PlanFile.Valid`, `Step.Valid`: what is required of a plan.
* `validate_eq_ok`, `decode_eq_ok`: what passes the checks, and what is decoded.
* `PlanFile.readFrom_entries`: the table of a plan says the plan.
* `PlanFile.decoding_exact`: **a plan that is valid is decoded from its table, and a text that is
  accepted says the plan that is returned, and nothing else.**
-/

namespace Provision

namespace Toml

variable {α : Type} {key : String} {entries : List (String × Toml)} {v : Toml}

/-- The value is a text, which may be written as a moment. -/
def IsText (v : Toml) (s : String) : Prop := v = .string s ∨ v = .moment s

/-- The value is an array of texts. -/
def AreTexts (v : Toml) (texts : List String) : Prop :=
  ∃ items, v = .array items ∧ List.Forall₂ IsText items texts

theorem asText_eq_ok {s : String} : asText v = .ok s ↔ v.IsText s := by
  cases v <;> simp [asText, IsText]

theorem asBool_eq_ok {b : Bool} : asBool v = .ok b ↔ v = .bool b := by
  cases v <;> simp [asBool]

theorem asTable_eq_ok : asTable v = .ok entries ↔ v = .table entries := by
  cases v <;> simp [asTable]

theorem asList_eq_ok {item : Toml → Except Fault α} {xs : List α} :
    asList item v = .ok xs ↔ ∃ items, v = .array items ∧ List.Forall₂ (item · = .ok ·) items xs := by
  cases v <;> simp [asList, mapM_eq_ok]

theorem asTexts_eq_ok {texts : List String} : asList asText v = .ok texts ↔ v.AreTexts texts := by
  simp only [asList_eq_ok, asText_eq_ok]
  rfl

theorem required_eq_ok {decode : Toml → Except Fault α} {a : α} :
    required key decode entries = .ok a ↔ ∃ v, entries.lookup key = some v ∧ decode v = .ok a := by
  unfold required
  cases entries.lookup key <;> simp

theorem withDefault_eq_ok {decode : Toml → Except Fault α} {a default : α} :
    withDefault key default decode entries = .ok a ↔
      (entries.lookup key).elim (a = default) fun v => decode v = .ok a := by
  unfold withDefault
  cases entries.lookup key <;> simp [eq_comm]

theorem optional_eq_ok {decode : Toml → Except Fault α} {o : Option α} :
    optional key decode entries = .ok o ↔
      Option.Rel (fun v a => decode v = .ok a) (entries.lookup key) o := by
  unfold optional
  cases entries.lookup key with
  | none => cases o <;> simp [Option.rel_none_none]
  | some v => cases o <;> simp [map_eq_ok]

/-- A number is decoded if it is below the bound. -/
theorem asNatBelow_eq_ok {bound n : Nat} :
    asNatBelow bound v = .ok n ↔ v = .int n ∧ n < bound := by
  cases v with
  | int i =>
    cases i with
    | ofNat k =>
      by_cases hk : k < bound
      · simp only [asNatBelow, if_pos hk, Except.ok.injEq, Toml.int.injEq, Int.ofNat_eq_natCast,
          Int.ofNat_inj]
        exact ⟨fun h => ⟨h, h ▸ hk⟩, fun h => h.1⟩
      · simp only [asNatBelow, if_neg hk, reduceCtorEq, Toml.int.injEq, Int.ofNat_eq_natCast,
          Int.ofNat_inj, false_iff]
        exact fun ⟨h, hn⟩ => hk (h ▸ hn)
    | negSucc k => simp [asNatBelow]
  | _ => simp [asNatBelow]

theorem closed_eq_ok {keys : List String} :
    closed keys entries = .ok () ↔ ∀ key ∈ entries.map (·.1), key ∈ keys := by
  unfold closed
  cases h : entries.find? fun e => !keys.contains e.1 with
  | none => simpa using h
  | some e =>
    have hout := List.find?_some h
    have hmem := List.mem_of_find?_eq_some h
    simp only [reduceCtorEq, List.forall_mem_map, false_iff]
    intro hall
    simp [hall e hmem] at hout

end Toml

open Toml

section Keys

variable (entries : List (String × Toml))

/-- What the keys of a mounted file system stand for. -/
structure MountSpec.ReadFrom (spec : MountSpec) : Prop where
  source : ∃ v, entries.lookup "source" = some v ∧ v.IsText spec.source
  target : ∃ v, entries.lookup "target" = some v ∧ v.IsText spec.target.text
  fstype : ∃ v, entries.lookup "fstype" = some v ∧ v.IsText spec.fstype
  options : (entries.lookup "options").elim (spec.options = []) (·.AreTexts spec.options)

/-- A refresh is named by a text, or by a table with that one key. -/
def Refresh.IsNamed (v : Toml) (refresh : Refresh) : Prop :=
  v = .string refresh.op.name ∨ v = .table [(refresh.op.name, .table [])]

/-- What the keys of a unit stand for: what is desired is set if and only if there is its key. -/
structure ServiceUnit.ReadFrom (unit : ServiceUnit) : Prop where
  name : ∃ v, entries.lookup "unit" = some v ∧ v.IsText unit.name
  enabled : entries.lookup "enabled" = unit.enabled.map .bool
  active : entries.lookup "active" = unit.active.map .bool
  reloadManager : (entries.lookup "daemon_reload").elim (unit.reloadManager = false)
    (· = .bool unit.reloadManager)
  refresh : Option.Rel Refresh.IsNamed (entries.lookup "refresh") unit.refresh

namespace StepAction

/-- The keys of an action of some kind. -/
def keys : StepAction → List String
  | mount _ => ["source", "target", "fstype", "options"]
  | service _ => ["unit", "enabled", "active", "daemon_reload", "refresh"]

/-- What the keys of an action stand for. -/
def ReadFrom : StepAction → Prop
  | mount spec => spec.ReadFrom entries
  | service unit => unit.ReadFrom entries

end StepAction

/-- What the keys of a step stand for, and that there are no keys but those of its kind. -/
structure Step.ReadFrom (step : Step) : Prop where
  id : ∃ v, entries.lookup "id" = some v ∧ v.IsText step.id
  kind : entries.lookup "kind" = some (.string step.action.kind)
  dependsOn : (entries.lookup "depends_on").elim (step.dependsOn = []) (·.AreTexts step.dependsOn)
  action : step.action.ReadFrom entries
  keys : ∀ key ∈ entries.map (·.1), key ∈ ["id", "kind", "depends_on"] ++ step.action.keys

/-- What the keys of a plan stand for, with a table for each step, in order, and no other keys. -/
structure PlanFile.ReadFrom (plan : PlanFile) : Prop where
  version : entries.lookup "plan_version" = some (.int plan.version)
  description : Option.Rel IsText (entries.lookup "description") plan.description
  steps : ∃ tables, entries.lookup "step" = some (.array tables) ∧
    List.Forall₂ (fun v step => ∃ entries, v = .table entries ∧ step.ReadFrom entries) tables plan.steps
  keys : ∀ key ∈ entries.map (·.1), key ∈ ["plan_version", "description", "step"]

end Keys

section Validity

/-- What is required of an action. -/
def StepAction.Valid : StepAction → Prop
  | mount spec => spec.target.isAbsolute = true ∧ Text.isBlankText spec.source = false ∧
      Text.isBlankText spec.fstype = false
  | service unit => Text.isBlankText unit.name = false ∧
      (unit.enabled ≠ none ∨ unit.active ≠ none ∨ unit.refresh ≠ none ∨ unit.reloadManager = true)

/-- What is required of a step. -/
structure Step.Valid (step : Step) : Prop where
  named : step.id ≠ ""
  noBlank : ∀ c ∈ step.id.toList, Text.isBlank c = false
  action : step.action.Valid

/-- What is required of a plan. -/
structure PlanFile.Valid (plan : PlanFile) : Prop where
  version : plan.version = 1
  nonempty : plan.steps ≠ []
  steps : ∀ step ∈ plan.steps, step.Valid

theorem firstComplaint_eq_ok {ε : Type} {checks : List (Bool × ε)} :
    firstComplaint checks = .ok () ↔ ∀ check ∈ checks, check.1 = false := by
  unfold firstComplaint
  cases h : checks.find? (·.1) with
  | none => simpa using h
  | some check =>
    have hmem := List.mem_of_find?_eq_some h
    have htrue := List.find?_some h
    simp only [reduceCtorEq, false_iff]
    intro hall
    simp [hall check hmem] at htrue

theorem StepAction.complaints_iff {step : String} {action : StepAction} :
    (∀ check ∈ action.complaints step, check.1 = false) ↔ action.Valid := by
  cases action with
  | mount spec => simp [complaints, Valid]
  | service unit =>
    have hasks : unit.asksSomething = true ↔
        unit.enabled ≠ none ∨ unit.active ≠ none ∨ unit.refresh ≠ none ∨ unit.reloadManager = true := by
      simp [ServiceUnit.asksSomething, Option.isSome_iff_ne_none, or_assoc]
    simp [complaints, Valid, hasks]

theorem Step.check_eq_ok {step : Step} : step.check = .ok () ↔ step.Valid := by
  rw [check, firstComplaint_eq_ok, complaints, List.forall_mem_cons, List.forall_mem_cons,
    StepAction.complaints_iff]
  constructor
  · rintro ⟨hid, hblank, haction⟩
    exact ⟨by simpa using hid, by simpa using hblank, haction⟩
  · rintro ⟨hid, hblank, haction⟩
    exact ⟨by simpa using hid, by simpa using hblank, haction⟩

/-- **What passes the checks is valid, and the other way round.** -/
theorem PlanFile.validate_eq_ok {plan : PlanFile} : plan.validate = .ok () ↔ plan.Valid := by
  rw [validate, bind_eq_ok]
  simp only [forM_eq_ok, Step.check_eq_ok]
  constructor
  · rintro ⟨⟨⟩, hplan, hsteps⟩
    have hplan := firstComplaint_eq_ok.1 hplan
    exact ⟨by simpa [planVersion] using hplan (_, _) List.mem_cons_self,
      by simpa using hplan (_, _) (List.mem_cons_of_mem _ List.mem_cons_self), hsteps⟩
  · rintro ⟨hversion, hsome, hsteps⟩
    exact ⟨(), firstComplaint_eq_ok.2 (by simp [planVersion, hversion, hsome]), hsteps⟩

end Validity

section Decoded

variable {entries : List (String × Toml)} {v : Toml} {step : Step} {plan : PlanFile}

theorem mem_of_lookup {α : Type} {choices : List (String × α)} {name : String} {a : α}
    (h : choices.lookup name = some a) : (name, a) ∈ choices := by
  obtain ⟨before, after, rfl, -⟩ := List.lookup_eq_some_iff.1 h
  exact List.mem_append_right _ List.mem_cons_self

theorem rel_eq_map {α β : Type} {f : β → α} {o : Option α} {p : Option β} :
    Option.Rel (fun a b => a = f b) o p ↔ o = p.map f := by
  cases o <;> cases p <;> simp

theorem Toml.named_eq_ok {α : Type} {choices : List (String × α)} {name : String} {a : α} :
    named choices name = .ok a ↔ choices.lookup name = some a := by
  unfold named
  cases choices.lookup name <;> simp

theorem Toml.asName_eq_ok {α : Type} {choices : List (String × α)} {a : α} :
    asName choices v = .ok a ↔ ∃ name, v = .string name ∧ choices.lookup name = some a := by
  cases v <;> simp [asName, named_eq_ok]

theorem Refresh.lookup_byName {name : String} {refresh : Refresh} :
    byName.lookup name = some refresh ↔ name = refresh.op.name := by
  constructor
  · intro h
    obtain ⟨r, -, hr⟩ := List.mem_map.1 (mem_of_lookup h)
    obtain ⟨rfl, rfl⟩ := Prod.mk.inj hr
    rfl
  · rintro rfl
    cases refresh <;> rfl

theorem Refresh.asChoice_eq_ok {refresh : Refresh} :
    asChoice byName v = .ok refresh ↔ Refresh.IsNamed v refresh := by
  unfold asChoice IsNamed
  split
  · simp [named_eq_ok, lookup_byName]
  · rename_i hother
    rw [asName_eq_ok]
    constructor
    · rintro ⟨name, rfl, hname⟩
      exact .inl (by rw [lookup_byName.1 hname])
    · rintro (rfl | rfl)
      · exact ⟨_, rfl, lookup_byName.2 rfl⟩
      · exact absurd rfl (hother _)

/-- The kind of an action is decoded from its name. -/
theorem StepAction.kind_eq_ok {isMount : Bool} :
    required "kind" (asName [("mount", true), ("service", false)]) entries = .ok isMount ↔
      entries.lookup "kind" = some (.string (if isMount then "mount" else "service")) := by
  simp only [required_eq_ok, asName_eq_ok]
  constructor
  · rintro ⟨v, hv, name, rfl, hname⟩
    have hmem := mem_of_lookup hname
    simp only [List.mem_cons, List.not_mem_nil, or_false, Prod.mk.injEq] at hmem
    rcases hmem with ⟨rfl, rfl⟩ | ⟨rfl, rfl⟩ <;> exact hv
  · intro h
    exact ⟨_, h, _, rfl, by cases isMount <;> rfl⟩

theorem StepAction.ofEntries_eq_ok {action : StepAction} :
    ofEntries entries = .ok action ↔
      entries.lookup "kind" = some (.string action.kind) ∧ action.ReadFrom entries := by
  unfold ofEntries
  simp only [bind_eq_ok, kind_eq_ok]
  constructor
  · rintro ⟨isMount, hkind, h⟩
    cases isMount with
    | true =>
      simp only [if_true, bind_eq_ok, required_eq_ok, withDefault_eq_ok, asText_eq_ok,
        asTexts_eq_ok] at h
      obtain ⟨source, hsource, target, htarget, fstype, hfstype, options, hoptions, h⟩ := h
      obtain rfl := Except.ok.inj h
      exact ⟨hkind, hsource, htarget, hfstype, hoptions⟩
    | false =>
      simp only [Bool.false_eq_true, if_false, bind_eq_ok, required_eq_ok, withDefault_eq_ok,
        optional_eq_ok, asText_eq_ok, asBool_eq_ok, Refresh.asChoice_eq_ok] at h
      obtain ⟨name, hname, enabled, henabled, active, hactive, reload, hreload, refresh, hrefresh, h⟩ := h
      obtain rfl := Except.ok.inj h
      exact ⟨hkind, hname, rel_eq_map.1 henabled, rel_eq_map.1 hactive, hreload, hrefresh⟩
  · rintro ⟨hkind, haction⟩
    cases action with
    | mount spec =>
      refine ⟨true, hkind, ?_⟩
      simp only [if_true, bind_eq_ok, required_eq_ok, withDefault_eq_ok, asText_eq_ok,
        asTexts_eq_ok]
      exact ⟨_, haction.source, _, haction.target, _, haction.fstype, _, haction.options, rfl⟩
    | service unit =>
      refine ⟨false, hkind, ?_⟩
      simp only [Bool.false_eq_true, if_false, bind_eq_ok, required_eq_ok, withDefault_eq_ok,
        optional_eq_ok, asText_eq_ok, asBool_eq_ok, Refresh.asChoice_eq_ok]
      exact ⟨_, haction.name, _, rel_eq_map.2 haction.enabled, _, rel_eq_map.2 haction.active, _,
        haction.reloadManager, _, haction.refresh, rfl⟩

/-- A step is decoded from a table of known keys if and only if the table says the step. -/
theorem Step.ofToml_eq_ok :
    unknownKeys v = [] ∧ ofToml v = .ok step ↔ ∃ entries, v = .table entries ∧ step.ReadFrom entries := by
  have hkeys : ∀ entries : List (String × Toml),
      entries.lookup "kind" = some (.string step.action.kind) →
      (unknownKeys (.table entries) = [] ↔
        ∀ key ∈ entries.map (·.1), key ∈ ["id", "kind", "depends_on"] ++ step.action.keys) := by
    intro entries hkind
    have hlookup : keysOfKind.lookup step.action.kind = some step.action.keys := by
      cases step.action <;> rfl
    simp only [unknownKeys, lookup?, hkind, Option.bind_some, text?, hlookup, List.filter_eq_nil_iff]
    simp [commonKeys, or_iff_not_imp_left]
  constructor
  · rintro ⟨hunknown, h⟩
    simp only [ofToml, bind_eq_ok, asTable_eq_ok, required_eq_ok, withDefault_eq_ok, asText_eq_ok,
      asTexts_eq_ok, StepAction.ofEntries_eq_ok] at h
    obtain ⟨entries, rfl, id, hid, dependsOn, hdeps, action, ⟨hkind, haction⟩, h⟩ := h
    obtain rfl := Except.ok.inj h
    exact ⟨entries, rfl, hid, hkind, hdeps, haction, (hkeys entries hkind).1 hunknown⟩
  · rintro ⟨entries, rfl, h⟩
    refine ⟨(hkeys entries h.kind).2 h.keys, ?_⟩
    simp only [ofToml, bind_eq_ok, asTable_eq_ok, required_eq_ok, withDefault_eq_ok, asText_eq_ok,
      asTexts_eq_ok, StepAction.ofEntries_eq_ok]
    exact ⟨entries, rfl, _, h.id, _, h.dependsOn, _, ⟨h.kind, h.action⟩, rfl⟩

theorem PlanFile.checkKeys_eq_ok : checkKeys entries = .ok () ↔
    ∀ tables, entries.lookup "step" = some (.array tables) → ∀ v ∈ tables, Step.unknownKeys v = [] := by
  have hstep : ∀ v, Step.checkKeys v = .ok () ↔ Step.unknownKeys v = [] := by
    intro v
    unfold Step.checkKeys
    cases Step.unknownKeys v <;> simp [Text.least?]
  unfold checkKeys
  split
  · rename_i tables hsteps
    refine forM_eq_ok.trans ?_
    simp [hstep, hsteps]
  · rename_i hother
    exact ⟨fun _ tables hsteps => absurd hsteps (hother tables), fun _ => rfl⟩

theorem PlanFile.ofEntries_eq_ok : ofEntries entries = .ok plan ↔
    (∀ key ∈ entries.map (·.1), key ∈ ["plan_version", "description", "step"]) ∧
    (entries.lookup "plan_version" = some (.int plan.version) ∧ plan.version < UInt32.size) ∧
    Option.Rel IsText (entries.lookup "description") plan.description ∧
    (entries.lookup "step").elim (plan.steps = []) fun v => ∃ tables, v = .array tables ∧
      List.Forall₂ (Step.ofToml · = .ok ·) tables plan.steps := by
  simp only [ofEntries, bind_eq_ok, required_eq_ok, asNatBelow_eq_ok, optional_eq_ok,
    asText_eq_ok, withDefault_eq_ok, asList_eq_ok]
  constructor
  · rintro ⟨⟨⟩, hkeys, version, ⟨v, hv, rfl, hlt⟩, description, hdesc, steps, hsteps, h⟩
    obtain rfl := Except.ok.inj h
    exact ⟨closed_eq_ok.1 hkeys, ⟨hv, hlt⟩, hdesc, hsteps⟩
  · rintro ⟨hkeys, ⟨hv, hlt⟩, hdesc, hsteps⟩
    exact ⟨(), closed_eq_ok.2 hkeys, _, ⟨_, hv, rfl, hlt⟩, _, hdesc, _, hsteps, rfl⟩

/-- **A table is decoded to a plan if and only if it says the plan and the plan is valid.** -/
theorem PlanFile.decode_eq_ok : decode entries = .ok plan ↔ plan.ReadFrom entries ∧ plan.Valid := by
  simp only [decode, bind_eq_ok, mapError_eq_ok]
  constructor
  · rintro ⟨⟨⟩, hkeys, _, hplan, ⟨⟩, hvalid, h⟩
    obtain rfl := Except.ok.inj h
    obtain ⟨hclosed, ⟨hversion, -⟩, hdesc, hsteps⟩ := ofEntries_eq_ok.1 hplan
    have hvalid := validate_eq_ok.1 hvalid
    refine ⟨⟨hversion, hdesc, ?_, hclosed⟩, hvalid⟩
    cases hlookup : entries.lookup "step" with
    | none =>
      rw [hlookup] at hsteps
      exact absurd hsteps hvalid.nonempty
    | some v =>
      rw [hlookup] at hsteps
      obtain ⟨tables, rfl, hall⟩ := hsteps
      have hunknown := checkKeys_eq_ok.1 hkeys tables hlookup
      exact ⟨tables, rfl,
        ((List.forall₂_and_left _ _).2 ⟨hunknown, hall⟩).imp fun _ _ => Step.ofToml_eq_ok.1⟩
  · rintro ⟨hread, hvalid⟩
    obtain ⟨tables, hlookup, hall⟩ := hread.steps
    obtain ⟨hunknown, hsteps⟩ := (List.forall₂_and_left _ _).1 (hall.imp fun _ _ => Step.ofToml_eq_ok.2)
    have hkeys : checkKeys entries = .ok () := checkKeys_eq_ok.2 fun tables' hlookup' => by
      obtain rfl : tables = tables' := by simpa [hlookup] using hlookup'
      exact hunknown
    have hversion : plan.version < UInt32.size := hvalid.version ▸ by decide
    refine ⟨(), hkeys, plan, ofEntries_eq_ok.2 ⟨hread.keys, ⟨hread.version, hversion⟩, hread.description, ?_⟩,
      (), validate_eq_ok.2 hvalid, rfl⟩
    rw [hlookup]
    exact ⟨tables, rfl, hsteps⟩

end Decoded

section Encoded

theorem areTexts_strings (texts : List String) : (strings texts).AreTexts texts :=
  ⟨_, rfl, List.forall₂_map_left_iff.2 (List.forall₂_same.2 fun _ _ => .inl rfl)⟩

/-- The entries of an action say the action, also after those that every step has. -/
theorem StepAction.readFrom_entries (action : StepAction) (id kind dependsOn : Toml) :
    action.ReadFrom ([("id", id), ("kind", kind), ("depends_on", dependsOn)] ++ action.entries) := by
  cases action with
  | mount spec =>
    exact ⟨⟨_, rfl, .inl rfl⟩, ⟨_, rfl, .inl rfl⟩, ⟨_, rfl, .inl rfl⟩, areTexts_strings _⟩
  | service unit =>
    obtain ⟨name, enabled, active, reload, refresh⟩ := unit
    refine ⟨⟨_, rfl, .inl rfl⟩, ?_, ?_, ?_, ?_⟩
    all_goals cases enabled <;> cases active <;> cases refresh
    all_goals first | rfl | exact .none | exact .some (.inl rfl)

theorem StepAction.keys_entries (action : StepAction) :
    ∀ key ∈ action.entries.map (·.1), key ∈ action.keys := by
  cases action with
  | mount spec => simp [entries, keys]
  | service unit =>
    obtain ⟨name, enabled, active, reload, refresh⟩ := unit
    cases enabled <;> cases active <;> cases refresh <;> simp [entries, keys, entry?]

/-- **The table of a plan says the plan.** -/
theorem PlanFile.readFrom_entries (plan : PlanFile) : plan.ReadFrom plan.entries := by
  obtain ⟨version, description, steps⟩ := plan
  refine ⟨rfl, ?_, ⟨steps.map Step.toToml, ?_, ?_⟩, ?_⟩
  · cases description
    · exact .none
    · exact .some (.inl rfl)
  · cases description <;> rfl
  · refine List.forall₂_map_left_iff.2 (List.forall₂_same.2 fun step _ => ⟨_, rfl, ?_⟩)
    refine ⟨⟨_, rfl, .inl rfl⟩, rfl, areTexts_strings _, step.action.readFrom_entries _ _ _, ?_⟩
    intro key hkey
    rw [List.map_append] at hkey
    exact List.mem_append.2 ((List.mem_append.1 hkey).imp_right (step.action.keys_entries key))
  · cases description <;> simp [entries, entry?]

end Encoded

/-- **Plan decoding is exact.** A plan that passes the checks is decoded from its table, as it is.
A text is accepted if and only if it is a document that says a plan and the plan is valid; what is
returned is that plan. In such a document no key stands twice, so each says one thing. -/
theorem PlanFile.decoding_exact :
    (∀ plan : PlanFile, plan.validate = .ok () → decode plan.entries = .ok plan) ∧
    ∀ (text : String) (plan : PlanFile), parse text = .ok plan ↔
      ∃ entries, Toml.parse text = .ok entries ∧ (Toml.table entries).Distinct ∧
        plan.ReadFrom entries ∧ plan.Valid := by
  refine ⟨fun plan hvalid => ?_, fun text plan => ?_⟩
  · exact decode_eq_ok.2 ⟨plan.readFrom_entries, validate_eq_ok.1 hvalid⟩
  · simp only [parse, bind_eq_ok, mapError_eq_ok, decode_eq_ok]
    exact ⟨fun ⟨entries, hparse, h⟩ => ⟨entries, hparse, Toml.parse_distinct hparse, h⟩,
      fun ⟨entries, hparse, _, h⟩ => ⟨entries, hparse, h⟩⟩

/-- A plan of one step, which enables a unit. -/
def webFile : PlanFile where
  version := 1
  steps := [⟨"web", [], .service { name := "web", enabled := some true }⟩]

/-- The plan as it may be written. -/
def webText : String := "plan_version=1\n[[step]]\nid='web'\nkind='service'\nunit='web'\nenabled=true"

theorem PlanFile.parse_webText : parse webText = .ok webFile := by
  have hread : (parse webText).toOption = some webFile := by decide +kernel
  cases h : parse webText with
  | error e =>
    rw [h] at hread
    cases hread
  | ok plan =>
    rw [h] at hread
    rw [Option.some.inj hread]

theorem PlanFile.decoding_exact_web :
    webFile.validate = .ok () ∧ decode webFile.entries = .ok webFile ∧ parse webText = .ok webFile ∧
    ∃ entries, Toml.parse webText = .ok entries ∧ (Toml.table entries).Distinct ∧
      webFile.ReadFrom entries ∧ webFile.Valid := by
  have hvalid : webFile.validate = .ok () := by decide
  exact ⟨hvalid, decoding_exact.1 webFile hvalid, parse_webText,
    (decoding_exact.2 webText webFile).1 parse_webText⟩

end Provision
