import Provision.Backend
import Provision.Proofs.Backend
import Provision.Proofs.Instant
import Provision.Proofs.RunLog.Codec
import Provision.Run.Orchestrator

/-!
# The most recent run

The store compares run logs by the texts of their moments. These are ordered as the moments are, so
what is listed last is a most recent run.

* `Script.under`: what a script returns on a machine where nothing changes.
* `Store.readable`: the run logs that can be read, among all that is in their directory.
* `Store.isBefore_trans`, `isBefore_total`: run logs can be put in order.
* `latest_newest`: **what is listed are the run logs that can be read, in the order of their moments,
  and what is rolled back without a name is one of the last of them.**
-/

namespace Provision

namespace Script

variable {I : Interface} {α β ε : Type} {reply : (r : I.Request) → I.Reply r}

/-- What a script returns where every request always gets the same reply. -/
def under (reply : (r : I.Request) → I.Reply r) (p : Script I α) : α := p.interpret (m := Id) reply

@[simp] theorem under_done (a : α) : (Script.done a).under reply = a := rfl

@[simp] theorem under_ask (r : I.Request) (k : I.Reply r → Script I α) :
    (Script.ask r k).under reply = (k (reply r)).under reply := rfl

@[simp] theorem under_bind (p : Script I α) (f : α → Script I β) :
    (p >>= f).under reply = (f (p.under reply)).under reply := by
  induction p with
  | done a => rfl
  | ask r k ih => exact ih _

@[simp] theorem under_map (p : Script I α) (f : α → β) : (f <$> p).under reply = f (p.under reply) := by
  rw [map_eq_pure_bind, under_bind]
  rfl

/-- The first of two scripts has failed. -/
theorem under_bindE_error {p : ExceptT ε (Script I) α} {f : α → ExceptT ε (Script I) β} {e : ε}
    (h : p.run.under reply = .error e) : (p >>= f).run.under reply = .error e := by
  have hrun : (p >>= f).run = p.run >>= fun r => ExceptT.bindCont f r := rfl
  rw [hrun, under_bind, h]
  rfl

/-- The first of two scripts has not failed. -/
theorem under_bindE_ok {p : ExceptT ε (Script I) α} {f : α → ExceptT ε (Script I) β} {a : α}
    (h : p.run.under reply = .ok a) : (p >>= f).run.under reply = (f a).run.under reply := by
  have hrun : (p >>= f).run = p.run >>= fun r => ExceptT.bindCont f r := rfl
  rw [hrun, under_bind, h]
  rfl

end Script

namespace Store

open Script SystemCall

variable {layout : Layout} {reply : (r : interface.Request) → interface.Reply r} {names : List String}

theorem isBefore_iff {a b : RunLog} : isBefore a b = true ↔
    a.startedAt < b.startedAt ∨ a.startedAt = b.startedAt ∧ a.runId ≤ b.runId := by
  simp [isBefore]

theorem isBefore_trans (a b c : RunLog) (hab : isBefore a b = true) (hbc : isBefore b c = true) :
    isBefore a c = true := by
  rw [isBefore_iff] at *
  rcases hab with hab | ⟨hab, hid⟩ <;> rcases hbc with hbc | ⟨hbc, hid'⟩
  · exact .inl (hab.trans hbc)
  · exact .inl (hbc ▸ hab)
  · exact .inl (hab ▸ hbc)
  · exact .inr ⟨hab.trans hbc, hid.trans hid'⟩

theorem isBefore_total (a b : RunLog) : (isBefore a b || isBefore b a) = true := by
  rw [Bool.or_eq_true, isBefore_iff, isBefore_iff]
  rcases lt_trichotomy a.startedAt b.startedAt with h | h | h
  · exact .inl (.inl h)
  · rcases le_total a.runId b.runId with hid | hid
    · exact .inl (.inr ⟨h, hid⟩)
    · exact .inr (.inr ⟨h.symm, hid⟩)
  · exact .inr (.inl h)

/-- The run log in a file of the directory, if it can be read. -/
def readLog? (reply : (r : interface.Request) → interface.Reply r) (layout : Layout) (name : String) :
    Option RunLog :=
  match (reply (readText (layout.runsDir.join name)) : Except IoError String) with
  | .ok text => (RunLog.parse text).toOption
  | .error _ => none

theorem readLog?_eq_some {name : String} {log : RunLog} (h : readLog? reply layout name = some log) :
    ∃ text, (reply (readText (layout.runsDir.join name)) : Except IoError String) = .ok text ∧
      RunLog.parse text = .ok log := by
  unfold readLog? at h
  rcases hread : (reply (readText (layout.runsDir.join name)) : Except IoError String) with e | text
  · rw [hread] at h
    cases h
  · rw [hread] at h
    change (RunLog.parse text).toOption = some log at h
    cases hparse : RunLog.parse text with
    | error e =>
      rw [hparse] at h
      cases h
    | ok log' =>
      rw [hparse] at h
      exact ⟨text, rfl, hparse.trans (congrArg _ (Option.some.inj h))⟩

/-- The run logs that can be read, among all that is in their directory. -/
def readable (reply : (r : interface.Request) → interface.Reply r) (layout : Layout)
    (names : List String) : List RunLog :=
  (names.filter isLogName).filterMap (readLog? reply layout)

theorem under_readLogs (layout : Layout) (names : List String) :
    (readLogs layout names).under reply = names.filterMap (readLog? reply layout) := by
  induction names with
  | nil => rfl
  | cons name rest ih =>
    have hreply : (request (readText (layout.runsDir.join name))).under reply =
        (reply (readText (layout.runsDir.join name)) : Except IoError String) := rfl
    rw [readLogs, under_bind, under_bind, ih, List.filterMap_cons, hreply, readLog?]
    rcases (reply (readText (layout.runsDir.join name)) : Except IoError String) with e | text
    · rfl
    · cases h : (RunLog.parse text).toOption <;> simp [h]

/-- What is listed, where the directory is there and can be listed. -/
theorem under_list (hthere : (reply (pathExists layout.runsDir) : Bool) = true)
    (hnames : (reply (listDirectory layout.runsDir) : Except IoError (List String)) = .ok names) :
    (list layout).run.under reply = .ok ((readable reply layout names).mergeSort isBefore) := by
  have hfound : (liftM (request (pathExists layout.runsDir)) : Stored Bool).run.under reply = .ok true :=
    congrArg Except.ok hthere
  have hlisted : (attempt (request (listDirectory layout.runsDir))).run.under reply = .ok names :=
    congrArg (Except.mapError StoreError.io) hnames
  have hread : (liftM (readLogs layout (names.filter isLogName)) : Stored (List RunLog)).run.under reply =
      .ok (readable reply layout names) := by
    change (Except.ok <$> readLogs layout (names.filter isLogName)).under reply = _
    rw [under_map, under_readLogs]
    rfl
  unfold list
  refine (under_bindE_ok hfound).trans ?_
  refine (under_bindE_ok hlisted).trans ?_
  exact (under_bindE_ok hread).trans rfl

/-- One run log is of an earlier moment than another one, or of the same moment and its name does
not come later. -/
def Precedes (a b : RunLog) : Prop :=
  ∀ t u : Instant, a.startedAt = t.rfc3339 → b.startedAt = u.rfc3339 →
    t < u ∨ t = u ∧ a.runId ≤ b.runId

/-- **What the store takes for an order of texts is the order of the moments.** -/
theorem precedes_of_isBefore {a b : RunLog} (h : isBefore a b = true) : Precedes a b := by
  intro t u ht hu
  rw [isBefore_iff, ht, hu] at h
  exact h.imp Instant.strictMono_rfc3339.lt_iff_lt.1
    (And.imp_left fun heq => Instant.strictMono_rfc3339.injective heq)

/-- What is the last of what is listed. -/
theorem under_latest {logs : List RunLog} (h : (list layout).run.under reply = .ok logs) :
    (latest layout).run.under reply =
      logs.getLast?.elim (.error (.noRuns layout.root.text)) .ok := by
  unfold latest
  refine (under_bindE_ok h).trans ?_
  cases logs.getLast? <;> rfl

/-- What is found is in a file that is listed. -/
theorem mem_of_under_latest {log : RunLog} (h : (latest layout).run.under reply = .ok log) :
    ∃ names name, (reply (listDirectory layout.runsDir) : Except IoError (List String)) = .ok names ∧
      name ∈ names ∧ isLogName name = true ∧ readLog? reply layout name = some log := by
  cases hthere : (reply (pathExists layout.runsDir) : Bool) with
  | false =>
    -- no directory, no run
    have hlist : (list layout).run.under reply = .ok [] := by
      have hfound : (liftM (request (pathExists layout.runsDir)) : Stored Bool).run.under reply = .ok false :=
        congrArg Except.ok hthere
      exact (under_bindE_ok hfound).trans rfl
    rw [under_latest hlist] at h
    cases h
  | true =>
    rcases hnames : (reply (listDirectory layout.runsDir) : Except IoError (List String)) with e | names
    · have hlist : (list layout).run.under reply = .error (.io e) := by
        have hfound : (liftM (request (pathExists layout.runsDir)) : Stored Bool).run.under reply = .ok true :=
          congrArg Except.ok hthere
        have hlisted : (attempt (request (listDirectory layout.runsDir))).run.under reply = .error (.io e) :=
          congrArg (Except.mapError StoreError.io) hnames
        exact (under_bindE_ok hfound).trans (under_bindE_error hlisted)
      rw [latest, under_bindE_error hlist] at h
      cases h
    · rw [under_latest (under_list hthere hnames)] at h
      cases hlast : ((readable reply layout names).mergeSort isBefore).getLast? with
      | none => rw [hlast] at h; cases h
      | some last =>
        rw [hlast] at h
        obtain rfl : last = log := Except.ok.inj h
        have hmem : last ∈ readable reply layout names :=
          (List.mergeSort_perm _ _).mem_iff.1 (List.mem_of_getLast? hlast)
        obtain ⟨name, hname, hread⟩ := List.mem_filterMap.1 hmem
        obtain ⟨hlisted, hlog⟩ := List.mem_filter.1 hname
        exact ⟨names, name, rfl, hlisted, hlog, hread⟩

/-- The log that is rolled back when no run is named. -/
theorem under_loadLog (backend : Backend) :
    (backend.perform layout (Orchestrator.loadLog none).run).under reply =
      ((latest layout).run.under reply).mapError RunError.store := by
  cases backend with
  | host live =>
    change ((latest layout).run >>= fun x => _).under reply = _
    rw [under_bind]
    rfl
  | mock =>
    rw [Backend.perform, under_map]
    -- the host in memory is kept beside the log
    change Prod.fst ((((latest layout).run >>= fun x => _) >>= fun y => _).under reply) = _
    rw [under_bind, under_bind]
    rfl

/-- **The most recent run is found**, whatever else is in the directory of run logs: if every run log
that can be read was made at some instant, then exactly these are listed, in the order of their
instants, and what is rolled back without a name is one with the greatest instant. -/
theorem latest_newest (hthere : (reply (pathExists layout.runsDir) : Bool) = true)
    (hnames : (reply (listDirectory layout.runsDir) : Except IoError (List String)) = .ok names)
    (hmade : ∀ log ∈ readable reply layout names, ∃ t : Instant, log.startedAt = t.rfc3339) :
    (∃ logs, (list layout).run.under reply = .ok logs ∧ logs.Perm (readable reply layout names) ∧
      logs.Pairwise Precedes) ∧
    (readable reply layout names = [] →
      (latest layout).run.under reply = .error (.noRuns layout.root.text)) ∧
    (readable reply layout names ≠ [] → ∃ log ∈ readable reply layout names, ∃ t : Instant,
      log.startedAt = t.rfc3339 ∧ (latest layout).run.under reply = .ok log ∧
      (∀ other ∈ readable reply layout names, ∀ u : Instant, other.startedAt = u.rfc3339 → u ≤ t) ∧
      ∀ backend : Backend,
        (backend.perform layout (Orchestrator.loadLog none).run).under reply = .ok log) := by
  have hlist := under_list hthere hnames
  have hlatest := under_latest hlist
  generalize hlogs : (readable reply layout names).mergeSort isBefore = logs at hlist hlatest
  have hperm : logs.Perm (readable reply layout names) := hlogs ▸ List.mergeSort_perm _ _
  have hsorted : logs.Pairwise Precedes := by
    rw [← hlogs]
    exact (List.pairwise_mergeSort isBefore_trans isBefore_total _).imp precedes_of_isBefore
  refine ⟨⟨logs, hlist, hperm, hsorted⟩, fun hnone => ?_, fun hsome => ?_⟩
  · rw [hnone] at hperm
    rw [hlatest, hperm.eq_nil]
    rfl
  · -- the last one follows all the others
    have hne : logs ≠ [] := fun hnil => hsome (hnil ▸ hperm).symm.eq_nil
    obtain ⟨before, log, rfl⟩ := (List.eq_nil_or_concat' logs).resolve_left hne
    have hlog : log ∈ readable reply layout names := hperm.mem_iff.1 (by simp)
    obtain ⟨t, ht⟩ := hmade log hlog
    have hfound : (latest layout).run.under reply = .ok log := by
      rw [hlatest]
      simp
    refine ⟨log, hlog, t, ht, hfound, fun other hother u hu => ?_, fun backend => ?_⟩
    · rcases List.mem_append.1 (hperm.mem_iff.2 hother) with hbefore | hself
      · rcases (List.pairwise_append.1 hsorted).2.2 other hbefore log (by simp) u t hu ht with h | h
        · exact h.le
        · exact h.1.le
      · rw [List.mem_singleton.1 hself, ht] at hu
        exact (Instant.strictMono_rfc3339.injective hu).ge
    · rw [under_loadLog, hfound]
      rfl

/-- The fifth second of a minute. -/
def fifthSecond : Instant where
  year := ⟨2026, by decide⟩
  month := ⟨1, by decide⟩
  day := ⟨2, by decide⟩
  hour := ⟨3, by decide⟩
  minute := ⟨4, by decide⟩
  second := ⟨5, by decide⟩
  nano := ⟨0, by decide⟩

/-- Less than a second later. -/
def shortlyAfter : Instant := { fifthSecond with nano := ⟨700000000, by decide⟩ }

/-- The log of a run that was made on the fifth second. -/
def onSecond : RunLog := .start "20260102030405000-0badcafe" fifthSecond.rfc3339 ["web"]

/-- The log of a run that was made less than a second later. -/
def pastSecond : RunLog := .start "20260102030405700-00c0ffee" shortlyAfter.rfc3339 ["web"]

/-- A directory of four files, of which two are run logs. -/
def shelf : List String := ["a.json", "notes.txt", "b.json", "c.json"]

/-- What its files hold. -/
def shelved (path : Path) : Except IoError String :=
  if path = ⟨"/s/runs/a.json"⟩ then .ok pastSecond.render
  else if path = ⟨"/s/runs/b.json"⟩ then .ok onSecond.render
  else .ok "not a run log"

/-- The replies of a machine with that directory. -/
def shelfReply (r : interface.Request) : interface.Reply r := SystemCall.busless shelved shelf r

theorem readLog?_shelf {name text : String} (h : shelved (Path.join ⟨"/s/runs"⟩ name) = .ok text) :
    readLog? shelfReply ⟨⟨"/s"⟩⟩ name = (RunLog.parse text).toOption := by
  unfold readLog?
  rw [show (shelfReply (readText (Path.join (Layout.runsDir ⟨⟨"/s"⟩⟩) name)) : Except IoError String) =
    .ok text from h]

theorem readable_shelf : readable shelfReply ⟨⟨"/s"⟩⟩ shelf = [pastSecond, onSecond] := by
  have hnames : shelf.filter isLogName = ["a.json", "b.json", "c.json"] := by decide
  have hlater : readLog? shelfReply ⟨⟨"/s"⟩⟩ "a.json" = some pastSecond := by
    rw [readLog?_shelf (if_pos (by decide)), RunLog.parse_render]
    rfl
  have hearlier : readLog? shelfReply ⟨⟨"/s"⟩⟩ "b.json" = some onSecond := by
    rw [readLog?_shelf ((if_neg (by decide)).trans (if_pos (by decide))), RunLog.parse_render]
    rfl
  have hbroken : readLog? shelfReply ⟨⟨"/s"⟩⟩ "c.json" = none := by
    rw [readLog?_shelf ((if_neg (by decide)).trans (if_neg (by decide)))]
    decide +kernel
  rw [readable, hnames, List.filterMap_cons_some hlater, List.filterMap_cons_some hearlier,
    List.filterMap_cons_none hbroken, List.filterMap_nil]

theorem made_shelf :
    ∀ log ∈ readable shelfReply ⟨⟨"/s"⟩⟩ shelf, ∃ t : Instant, log.startedAt = t.rfc3339 := by
  rw [readable_shelf]
  simp only [List.forall_mem_cons]
  exact ⟨⟨shortlyAfter, rfl⟩, ⟨fifthSecond, rfl⟩, fun _ hmem => absurd hmem List.not_mem_nil⟩

theorem fifthSecond_lt : fifthSecond < shortlyAfter := by
  simp only [Instant.lt_iff, Instant.fields, shortlyAfter, List.cons_lt_cons_iff]
  decide

/-- The run that was made later is found, in whatever order the files are. -/
theorem latest_newest_shelf :
    (shelfReply (pathExists (Layout.runsDir ⟨⟨"/s"⟩⟩)) : Bool) = true ∧
    (shelfReply (listDirectory (Layout.runsDir ⟨⟨"/s"⟩⟩)) : Except IoError (List String)) = .ok shelf ∧
    readable shelfReply ⟨⟨"/s"⟩⟩ shelf = [pastSecond, onSecond] ∧
    (∃ logs, (list ⟨⟨"/s"⟩⟩).run.under shelfReply = .ok logs ∧ logs.Perm [pastSecond, onSecond] ∧
      logs.Pairwise Precedes) ∧
    (latest ⟨⟨"/s"⟩⟩).run.under shelfReply = .ok pastSecond := by
  obtain ⟨hlist, -, hlatest⟩ := latest_newest rfl rfl made_shelf
  rw [readable_shelf] at hlist hlatest
  obtain ⟨log, hlog, t, ht, hfound, hgreatest, -⟩ := hlatest (List.cons_ne_nil _ _)
  refine ⟨rfl, rfl, readable_shelf, hlist, ?_⟩
  simp only [List.mem_cons, List.not_mem_nil, or_false] at hlog
  rcases hlog with rfl | rfl
  · exact hfound
  · -- the other run was made before
    have hstarted : onSecond.startedAt = fifthSecond.rfc3339 := rfl
    have hle := hgreatest pastSecond List.mem_cons_self shortlyAfter rfl
    rw [← Instant.strictMono_rfc3339.injective (hstarted.symm.trans ht)] at hle
    exact absurd hle fifthSecond_lt.not_ge

end Store

end Provision
