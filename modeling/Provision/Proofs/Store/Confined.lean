import Provision.Proofs.RunId
import Provision.Proofs.Script.Reach
import Provision.Proofs.Store
import Provision.Run.Journal

/-!
# Where a run log is looked for

What a run log is loaded by is taken from outside, and may be any text. Only the name of a run is
looked for, and only right in the directory of run logs.

* `Path.components_join`: what is in a directory has one component more.
* `Layout.components_runPath`: **the log of a run is right in the directory of run logs.**
* `Store.run_load_of_invalid`, `run_load_of_valid`: loading, request by request.
* `Journal.create_names`: what is created is named like a run.
* `Store.load_confined`: **what is not the name of a run is refused without a look, and anything else is
  looked for in one place; the name of a new run is never refused.**
-/

namespace Provision

/-! ### Paths -/

/-- What is in a directory has one component more. -/
theorem Path.components_join {p : Path} {name : String} (hp : p.text ≠ "") (hname : IsName name) :
    (p.join name).components = p.components ++ [.name name] := by
  obtain ⟨_, -, -, habsolute⟩ := toList_join hp hname
  have hlast : ([name].filter (· ≠ ".")).map Component.ofPiece = [.name name] := by
    rw [List.filter_cons_of_pos (by simpa using hname.ne_here)]
    simp [Component.ofPiece, hname.ne_up]
  unfold components
  rw [habsolute, pieces_join hp hname, List.filter_append, List.map_append, hlast]
  split
  · rfl
  · -- a dot at the start of a path stays where it is
    cases hpieces : p.pieces with
    | nil => simp [hname.ne_here]
    | cons first rest => simp

namespace Layout

variable {id : String}

theorem components_runsDir (layout : Layout) :
    layout.runsDir.components = layout.root.components ++ [.name "runs"] := by
  by_cases hroot : layout.root.text = ""
  · obtain ⟨⟨text⟩⟩ := layout
    cases hroot
    decide
  · exact Path.components_join hroot Store.isName_runs

/-- **The log of a run is right in the directory of run logs.** -/
theorem components_runPath (layout : Layout) (hvalid : RunId.isValid id = true) :
    (layout.runPath id).components = layout.root.components ++ [.name "runs", .name (id ++ ".json")] := by
  rw [runPath, Path.components_join (Store.runsDir_ne_empty layout) (RunId.isName hvalid), components_runsDir,
    List.append_assoc]
  rfl

end Layout

/-! ### Loading -/

namespace Store

open Script SystemCall

variable {layout : Layout} {id : String}

/-- What is not the name of a run is refused, and nothing is requested. -/
theorem run_load_of_invalid (h : RunId.isValid id = false) :
    (load layout id).run = .done (.error (.invalidRunId id)) := by
  unfold load
  rw [h]
  rfl

/-- What is the name of a run is looked for, and read if it is there. -/
theorem run_load_of_valid (h : RunId.isValid id = true) : (load layout id).run =
    .ask (.pathExists (layout.runPath id)) fun (found : Bool) =>
      if found = true then
        .ask (.readText (layout.runPath id)) fun text =>
          .done ((text : Except IoError String).mapError StoreError.io >>= decode)
      else .done (.error (.runNotFound id)) := by
  unfold load
  rw [h]
  refine congrArg (Script.ask (I := interface) (pathExists (layout.runPath id)))
    (funext fun (found : Bool) => ?_)
  cases found with
  | false => rfl
  | true =>
    refine congrArg (Script.ask (I := interface) (readText (layout.runPath id)))
      (funext fun (text : Except IoError String) => ?_)
    cases text <;> rfl

/-- What cannot be decoded is something else than a text that is not the name of a run. -/
theorem decode_ne (text : String) (other : String) : decode text ≠ .error (.invalidRunId other) := by
  unfold decode
  cases RunLog.parse text <;> simp [Except.mapError]

/-- What is loaded by is called invalid if and only if it does not have the form of a name. -/
theorem returns_load (layout : Layout) (id : String) : (load layout id).run.Returns fun result =>
    (∃ other, result = .error (.invalidRunId other)) ↔ ¬RunId.Shaped id := by
  rw [← RunId.isValid_iff, Bool.not_eq_true]
  cases h : RunId.isValid id with
  | false =>
    rw [run_load_of_invalid h]
    exact iff_of_true ⟨id, rfl⟩ rfl
  | true =>
    rw [run_load_of_valid h]
    intro (found : Bool)
    cases found with
    | false => exact iff_of_false nofun nofun
    | true =>
      intro text
      rcases (text : Except IoError String) with e | text
      · exact iff_of_false nofun nofun
      · refine iff_of_false ?_ nofun
        rintro ⟨other, hother⟩
        exact decode_ne text other hother

/-- Nothing but the log of the run is looked at. -/
theorem only_load_runPath (layout : Layout) (h : RunId.isValid id = true) : (load layout id).run.Only
    fun r : SystemCall => r = .pathExists (layout.runPath id) ∨ r = .readText (layout.runPath id) := by
  rw [run_load_of_valid h]
  refine ⟨.inl rfl, fun (found : Bool) => ?_⟩
  cases found with
  | false => trivial
  | true => exact ⟨.inr rfl, fun _ => trivial⟩

end Store

namespace Journal

/-- A log that is put on disk and returned is named as it is. -/
theorem saved_names (log : RunLog) (h : RunId.Shaped log.runId) {saved : Kept StoreError RunLog}
    (hsaved : saved = do save log; return log) :
    (saved.run.Only fun e : Effect => ∀ log, e = .save log → RunId.Shaped log.runId) ∧
      saved.run.Returns fun result => ∀ log, result = .ok log → RunId.Shaped log.runId := by
  subst hsaved
  refine ⟨⟨?_, ?_⟩, ?_⟩
  · rintro _ ⟨⟩
    exact h
  · rintro (e | _) <;> trivial
  · rintro (e | _) _ ⟨⟩
    exact h

/-- **What is created is named like a run**, whatever the plan and whenever. -/
theorem create_names (plan : List String) :
    ((create plan).run.Only fun e : Effect => ∀ log, e = .save log → RunId.Shaped log.runId) ∧
      (create plan).run.Returns fun result => ∀ log, result = .ok log → RunId.Shaped log.runId := by
  have hnow : ∀ log, Effect.now = .save log → RunId.Shaped log.runId := fun _ h => by cases h
  have hprocess : ∀ log, Effect.process = .save log → RunId.Shaped log.runId := fun _ h => by cases h
  -- the log that is saved after the clock and the process have told its name
  have hnames := fun (created : Instant) (process : Nat) (started : Instant) =>
    saved_names (.start (RunId.fresh created process plan) started.rfc3339 plan)
      (RunId.shaped_fresh created process plan) rfl
  exact ⟨⟨hnow, fun created => ⟨hprocess, fun process => ⟨hnow, fun started =>
    (hnames created process started).1⟩⟩⟩, fun created process started => (hnames created process started).2⟩

end Journal

/-- **A run log is looked for in one place, or not at all.** Whatever text it is to be loaded by, and
whatever is answered, that text is called invalid if and only if it does not consist of 17 digits, a
dash and 8 hexadecimal digits; it makes no difference whether its bytes are looked at or its
characters. Then nothing is requested, and otherwise nothing but one file right in the directory of
run logs, whose name has no separator. What is created is always named by such a text. -/
theorem Store.load_confined (layout : Layout) (id : String) :
    RunId.isValidBytes id.toUTF8.data.toList = RunId.isValid id ∧
    ((load layout id).run.Returns fun result =>
      (∃ other, result = .error (.invalidRunId other)) ↔ ¬RunId.Shaped id) ∧
    ((load layout id).run = .done (.error (.invalidRunId id)) ∨
      ((load layout id).run.Only fun r : SystemCall =>
        r = .pathExists (layout.runPath id) ∨ r = .readText (layout.runPath id)) ∧
      (layout.runPath id).text = layout.runsDir.text ++ "/" ++ (id ++ ".json") ∧
      (layout.runPath id).components =
        layout.root.components ++ [.name "runs", .name (id ++ ".json")] ∧
      '/' ∉ (id ++ ".json").toList) ∧
    ∀ plan, ((Journal.create plan).run.Only fun e : Effect =>
        ∀ log, e = .save log → RunId.Shaped log.runId) ∧
      (Journal.create plan).run.Returns fun result =>
        ∀ log, result = .ok log → RunId.Shaped log.runId := by
  refine ⟨RunId.isValidBytes_toUTF8 id, returns_load layout id, ?_, Journal.create_names⟩
  cases h : RunId.isValid id with
  | false => exact .inl (run_load_of_invalid h)
  | true =>
    have hname := RunId.isName h
    exact .inr ⟨only_load_runPath layout h, runsDir_join layout hname, layout.components_runPath h,
      hname.noSlash⟩

end Provision
