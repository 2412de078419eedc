import Provision.Machine
import Provision.Proofs.Files
import Provision.Proofs.RunLog.Codec
import Provision.Store

/-!
# What is saved is what is loaded

The store on a machine in memory, which keeps the bytes of its files.

* `Store.on`: what the store answers on a machine, and the machine after it.
* `RunId.isName`: the name of a run names a file.
* `Store.Ready`: the directory of run logs can be used.
* `replace_join`, `readText_of_node`: a file is put in place, and read as it was written.
* `save_load`: **a run log that was saved is loaded again as it was, and every other one is loaded as
  before.**
-/

namespace Provision

namespace Files

variable {fs : Files} {dest : Place} {p : Path} {name : String}

/-- A new file in a directory. -/
theorem replace_join (hp : p.text ≠ "") (hname : Path.IsName name) (hfits : Fits (p.join name))
    (hleads : Leads fs maxLinks (fs.origin p) p.pieces dest)
    (hlink : ∀ target, fs.get? (dest ++ [name]) ≠ some (.link target))
    (hdir : fs.get? (dest ++ [name]) ≠ some .dir) (bytes : ByteArray) :
    fs.replace (p.join name) bytes = .ok (fs.set (dest ++ [name]) (.file bytes)) := by
  rw [replace, lookup_join hp hname hfits hleads hlink, spotAt]
  cases hget : fs.get? (dest ++ [name]) with
  | none => rfl
  | some node =>
    cases node with
    | dir => exact absurd hget hdir
    | file bytes => rfl
    | link target => exact absurd hget (hlink target)

/-- What is read of a file in a directory. -/
theorem node_join (hp : p.text ≠ "") (hname : Path.IsName name) (hfits : Fits (p.join name))
    (hleads : Leads fs maxLinks (fs.origin p) p.pieces dest)
    (hlink : ∀ target, fs.get? (dest ++ [name]) ≠ some (.link target)) :
    fs.node (p.join name) =
      (fs.get? (dest ++ [name])).elim (.error .notFound) fun node => .ok (dest ++ [name], node) := by
  rw [node, lookup_join hp hname hfits hleads hlink, spotAt]
  cases fs.get? (dest ++ [name]) <;> rfl

/-- A text is read as it was written. -/
theorem readText_of_node {text : String} (h : fs.node p = .ok (dest, .file text.toUTF8)) :
    fs.readText p = .ok text := by
  have hbytes : fs.readBytes p = .ok text.toUTF8 := by rw [readBytes, h]; rfl
  have htext : String.fromUTF8? text.toUTF8 = some text := dif_pos text.isValidUTF8
  rw [readText, hbytes]
  simp only [bind, Except.bind, htext]

end Files

namespace RunId

variable {id : String}

/-- The characters of the name of a run. -/
theorem chars_of_isValid (h : isValid id = true) : id.toList.length = 26 ∧
    ∀ c ∈ id.toList, c = '-' ∨ c.isDigit = true ∨ Text.isHexDigit c = true := by
  unfold isValid at h
  split at h
  · rename_i stamp tag hsplit
    simp only [Bool.and_eq_true, beq_iff_eq, List.all_eq_true] at h
    obtain ⟨⟨⟨hstamp, hdigits⟩, htag⟩, hhex⟩ := h
    rw [(Text.splitOnce_eq_some.1 hsplit).2]
    refine ⟨by simp [hstamp, htag], fun c hc => ?_⟩
    rcases List.mem_append.1 hc with hc | hc
    · exact .inr (.inl (hdigits c hc))
    · exact (List.mem_cons.1 hc).imp_right fun hc => .inr (hhex c hc)
  · cases h

theorem utf8ByteSize_le : ∀ chars : List Char, (String.ofList chars).utf8ByteSize ≤ 4 * chars.length
  | [] => by simp
  | c :: chars => by
    have hc := Char.utf8Size_le_four c
    have hchars := utf8ByteSize_le chars
    rw [String.ofList_cons, String.utf8ByteSize_append, String.utf8ByteSize_singleton, List.length_cons]
    omega

/-- **The name of a run names a file.** -/
theorem isName (h : isValid id = true) : Path.IsName (id ++ ".json") := by
  obtain ⟨hlength, hchars⟩ := chars_of_isValid h
  have hnot : ∀ c : Char, c ≠ '-' → c.isDigit = false → Text.isHexDigit c = false →
      c ∉ ".json".toList → c ∉ (id ++ ".json").toList := by
    intro c hdash hdigit hhex hsuffix hmem
    rw [String.toList_append, List.mem_append] at hmem
    rcases hmem with hmem | hmem
    · rcases hchars c hmem with rfl | hc | hc <;> simp_all
    · exact hsuffix hmem
  have hlong : (id ++ ".json").toList.length = 31 := by simp [hlength]
  have hshort := utf8ByteSize_le (id ++ ".json").toList
  rw [String.ofList_toList, hlong] at hshort
  refine ⟨⟨?_, ?_, by omega⟩, ?_, hnot '/' (by decide) (by decide) (by decide) (by decide),
    hnot '\x00' (by decide) (by decide) (by decide) (by decide)⟩
  all_goals
    intro heq
    rw [heq] at hlong
    cases hlong

end RunId

namespace Store

variable {layout : Layout} {m : Machine} {dir : Place} {id : String}

open SystemCall

/-- A machine answers what the store asks. -/
def answers (r : interface.Request) (m : Machine) : interface.Reply r × Machine := Machine.answer r m

/-- What the store answers on a machine, and the machine after it. -/
def on {α : Type} (m : Machine) (act : Stored α) : Except StoreError α × Machine :=
  act.run.run answers m

section

variable {α β : Type}

theorem on_bind (m : Machine) (act : Stored α) (next : α → Stored β) :
    on m (act >>= next) = match on m act with
      | (.ok a, m') => on m' (next a)
      | (.error e, m') => (.error e, m') := by
  have hbind : (act >>= next).run = act.run >>= fun r => ExceptT.bindCont next r := rfl
  rw [on, hbind, Script.run_bind]
  rcases hact : act.run.run answers m with ⟨⟨⟩, m'⟩ <;> simp only [on, hact] <;> rfl

theorem on_throw (m : Machine) (e : StoreError) : on m (throw e : Stored α) = (.error e, m) := rfl

theorem on_request (m : Machine) (r : SystemCall) :
    on m (liftM (request r) : Stored r.Reply) = (.ok (m.answer r).1, (m.answer r).2) := rfl

theorem on_mk (m : Machine) (made : Except StoreError α) :
    on m (ExceptT.mk (.done made)) = (made, m) := rfl

end

/-- What is loaded from some files. -/
def loadFrom (fs : Files) (layout : Layout) (id : String) : Except StoreError RunLog :=
  if RunId.isValid id = true then
    if fs.exists? (layout.runPath id) = true then
      (fs.readText (layout.runPath id)).mapError .io >>= decode
    else .error (.runNotFound id)
  else .error (.invalidRunId id)

theorem on_read (m : Machine) (path : Path) :
    on m (attempt (request (.readText path))) = ((m.files.readText path).mapError .io, m) := rfl

/-- Loading changes nothing. -/
theorem on_load (m : Machine) (layout : Layout) (id : String) :
    on m (load layout id) = (loadFrom m.files layout id, m) := by
  unfold load loadFrom
  cases hvalid : RunId.isValid id with
  | false => rfl
  | true =>
    cases hexists : m.files.exists? (layout.runPath id) with
    | false =>
      simp [on_bind, on_request, Machine.answer, hexists, on_throw]
    | true =>
      cases hread : m.files.readText (layout.runPath id) <;>
        simp [on_bind, on_request, Machine.answer, hexists, on_read, hread, on_mk, Except.mapError] <;>
        rfl

/-- What is saved. -/
theorem on_save (m : Machine) (layout : Layout) (log : RunLog) {made saved : Files}
    (hmade : m.files.makeDirs layout.runsDir = .ok made)
    (hsaved : made.replace (layout.runPath log.runId) log.render.toUTF8 = .ok saved) :
    on m (save layout log) = (.ok (), { m with files := saved }) := by
  have hdir : on m (attempt (request (.makeDirectories layout.runsDir))) =
      (.ok (), { m with files := made }) := by
    change ((m.change _).1.mapError _, (m.change _).2) = _
    rw [hmade]
    rfl
  have hreplace : on { m with files := made }
      (attempt (request (.replaceText (layout.runPath log.runId) log.render))) =
      (.ok (), { m with files := saved }) := by
    change ((Machine.change _ _).1.mapError _, (Machine.change _ _).2) = _
    simp only [hsaved]
    rfl
  rw [save, on_bind, hdir]
  exact hreplace

theorem runsDir_text (layout : Layout) : ∃ above, layout.runsDir.text.toList = above ++ "runs".toList := by
  unfold Layout.runsDir Path.join
  rw [if_neg (by decide)]
  split
  · exact ⟨layout.root.text.toList, by simp⟩
  · exact ⟨layout.root.text.toList ++ ['/'], by simp⟩

theorem runsDir_ne_empty (layout : Layout) : layout.runsDir.text ≠ "" := by
  obtain ⟨above, h⟩ := runsDir_text layout
  intro hempty
  simp [hempty] at h

theorem runsDir_last (layout : Layout) : layout.runsDir.text.toList.getLast? ≠ some '/' := by
  obtain ⟨above, h⟩ := runsDir_text layout
  rw [h, List.getLast?_append_of_ne_nil _ (by decide)]
  decide

theorem isName_runs : Path.IsName "runs" :=
  ⟨⟨by decide, by decide, by decide⟩, by decide, by decide, by decide⟩

theorem runsDir_pieces (layout : Layout) : layout.runsDir.pieces ≠ [] := by
  by_cases hroot : layout.root.text = ""
  · have heq : layout.runsDir = ⟨"runs"⟩ := by
      obtain ⟨⟨text⟩⟩ := layout
      cases hroot
      rfl
    rw [heq]
    decide
  · rw [Layout.runsDir, Path.pieces_join hroot isName_runs]
    exact List.append_ne_nil_of_right_ne_nil _ (List.cons_ne_nil _ _)

/-- The text of a path to something in the directory of run logs. -/
theorem runsDir_join (layout : Layout) {name : String} (hname : Path.IsName name) :
    (layout.runsDir.join name).text = layout.runsDir.text ++ "/" ++ name := by
  have hrelative : (Path.mk name).isAbsolute = false := by
    rw [Path.isAbsolute, beq_eq_false_iff_ne]
    exact fun h => hname.noSlash (List.mem_of_mem_head? h)
  have hnot : ¬(layout.runsDir.text = "" ∨ layout.runsDir.text.toList.getLast? = some '/') := fun h =>
    h.elim (runsDir_ne_empty layout) (runsDir_last layout)
  rw [Path.join, if_neg (by simp [hrelative]), if_neg hnot]

/-- What is in the directory can only be looked up where the directory can be. -/
theorem fits_of_join {name : String} (hname : Path.IsName name)
    (hfits : Files.Fits (layout.runsDir.join name)) : Files.Fits layout.runsDir := by
  have htext := runsDir_join layout hname
  refine ⟨runsDir_ne_empty layout, ?_, ?_⟩
  · have hnul := hfits.noNul
    rw [htext] at hnul
    simp only [String.toList_append, List.mem_append] at hnul
    exact fun h => hnul (.inl (.inl h))
  · have hshort := hfits.short
    rw [htext, String.utf8ByteSize_append, String.utf8ByteSize_append] at hshort
    omega

/-- A path that leaves room for names. -/
theorem fits_runPath (hfits : Files.Fits layout.runsDir) (hshort : layout.runsDir.text.utf8ByteSize < 3840)
    (hvalid : RunId.isValid id = true) : Files.Fits (layout.runPath id) := by
  have hname := RunId.isName hvalid
  have htext : (layout.runPath id).text = layout.runsDir.text ++ "/" ++ (id ++ ".json") :=
    runsDir_join layout hname
  refine ⟨?_, ?_, ?_⟩ <;> rw [htext]
  · simp
  · simpa using ⟨hfits.noNul, by simpa using hname.noNul⟩
  · have hlength := hname.short
    have hslash : "/".utf8ByteSize = 1 := by decide
    rw [String.utf8ByteSize_append, String.utf8ByteSize_append, hslash]
    omega

/-- The directory of run logs can be used: it is there, or can be made, and what is named in it like
a run log is a file. -/
structure Ready (layout : Layout) (fs made : Files) (dir : Place) : Prop where
  makes : fs.makeDirs layout.runsDir = .ok made
  leads : made.node layout.runsDir = .ok (dir, .dir)
  /-- A directory that had to be made is empty. -/
  empty : fs.isDir layout.runsDir = false →
    ∀ id, RunId.isValid id = true → made.get? (dir ++ [id ++ ".json"]) = none
  files : ∀ id node, RunId.isValid id = true → made.get? (dir ++ [id ++ ".json"]) = some node →
    ∃ bytes, node = .file bytes
  fits : ∀ id, RunId.isValid id = true → Files.Fits (layout.runPath id)

theorem loadFrom_congr {fs fs' : Files} (h : fs.node (layout.runPath id) = fs'.node (layout.runPath id)) :
    loadFrom fs layout id = loadFrom fs' layout id := by
  unfold loadFrom Files.exists? Files.readText Files.readBytes
  rw [h]

theorem loadFrom_of_missing {fs : Files} (hvalid : RunId.isValid id = true)
    (h : fs.exists? (layout.runPath id) = false) : loadFrom fs layout id = .error (.runNotFound id) := by
  simp [loadFrom, hvalid, h]

/-- A run log in a file is loaded. -/
theorem loadFrom_of_render {fs : Files} {place : Place} {log : RunLog} (hvalid : RunId.isValid id = true)
    (h : fs.node (layout.runPath id) = .ok (place, .file log.render.toUTF8)) :
    loadFrom fs layout id = .ok log := by
  have hexists : fs.exists? (layout.runPath id) = true := by rw [Files.exists?, h]; rfl
  rw [loadFrom, if_pos hvalid, if_pos hexists, Files.readText_of_node h]
  change decode log.render = .ok log
  rw [decode, RunLog.parse_render]
  rfl

namespace Ready

variable {fs made : Files}

theorem walked (h : Ready layout fs made dir) :
    Files.Leads made Files.maxLinks (made.origin layout.runsDir) layout.runsDir.pieces dir :=
  Files.leads_of_node h.leads (runsDir_last layout)

theorem not_link (h : Ready layout fs made dir) (hvalid : RunId.isValid id = true) (target : String) :
    made.get? (dir ++ [id ++ ".json"]) ≠ some (.link target) := by
  intro hget
  obtain ⟨bytes, heq⟩ := h.files id _ hvalid hget
  cases heq

theorem not_dir (h : Ready layout fs made dir) (hvalid : RunId.isValid id = true) :
    made.get? (dir ++ [id ++ ".json"]) ≠ some .dir := by
  intro hget
  obtain ⟨bytes, heq⟩ := h.files id _ hvalid hget
  cases heq

/-- What the name of a run leads to. -/
theorem node_runPath (h : Ready layout fs made dir) (hvalid : RunId.isValid id = true) :
    made.node (layout.runPath id) =
      (made.get? (dir ++ [id ++ ".json"])).elim (.error .notFound)
        fun node => .ok (dir ++ [id ++ ".json"], node) :=
  Files.node_join (runsDir_ne_empty layout) (RunId.isName hvalid) (h.fits id hvalid) h.walked
    (h.not_link hvalid)

/-- Making the directory does not change what is loaded. -/
theorem loadFrom_made (h : Ready layout fs made dir) (hvalid : RunId.isValid id = true) :
    loadFrom made layout id = loadFrom fs layout id := by
  cases hdir : fs.isDir layout.runsDir with
  | true =>
    -- the directory is there, and making it changes nothing
    obtain ⟨place, hnode⟩ := Files.node_of_isDir hdir
    have hsame := (Files.makeDirs_of_node hnode (runsDir_last layout) (runsDir_pieces layout)).symm.trans
      h.makes
    rw [Except.ok.inj hsame]
  | false =>
    have hafter : made.exists? (layout.runPath id) = false := by
      rw [Files.exists?, h.node_runPath hvalid, h.empty hdir id hvalid]
      rfl
    have hbefore : fs.exists? (layout.runPath id) = false := by
      unfold Files.exists?
      cases hnode : fs.node (layout.runPath id) with
      | error e => rfl
      | ok found =>
        have htrue := Files.isDir_of_join (RunId.isName hvalid) (Files.node_eq_dir.1 h.leads).1
          (runsDir_last layout) hnode
        rw [hdir] at htrue
        cases htrue
    rw [loadFrom_of_missing hvalid hafter, loadFrom_of_missing hvalid hbefore]

/-- A directory that is there can be used. -/
theorem of_node (hnode : fs.node layout.runsDir = .ok (dir, .dir))
    (hfiles : ∀ id node, RunId.isValid id = true → fs.get? (dir ++ [id ++ ".json"]) = some node →
      ∃ bytes, node = .file bytes)
    (hfits : ∀ id, RunId.isValid id = true → Files.Fits (layout.runPath id)) :
    Ready layout fs fs dir where
  makes := Files.makeDirs_of_node hnode (runsDir_last layout) (runsDir_pieces layout)
  leads := hnode
  empty hdir := by
    rw [Files.isDir, hnode] at hdir
    cases hdir
  files := hfiles
  fits := hfits

/-- A directory that a run log was put in can be used again. -/
theorem put (h : Ready layout fs made dir) (hvalid : RunId.isValid id = true) (bytes : ByteArray) :
    Ready layout (made.set (dir ++ [id ++ ".json"]) (.file bytes))
      (made.set (dir ++ [id ++ ".json"]) (.file bytes)) dir := by
  refine of_node ?_ (fun id' node hvalid' hget => ?_) h.fits
  · have hleads := h.walked.set (h.not_dir hvalid) (h.not_link hvalid) (.file bytes)
    refine Files.node_eq_dir.2 ⟨(Files.node_eq_dir.1 h.leads).1, ?_⟩
    rw [Files.walk.steps, if_neg (runsDir_last layout), List.append_nil]
    exact hleads.taken
  · by_cases hplace : dir ++ [id' ++ ".json"] = dir ++ [id ++ ".json"]
    · have hne : dir ++ [id ++ ".json"] ≠ [] := List.append_ne_nil_of_right_ne_nil _ (List.cons_ne_nil _ _)
      rw [hplace, Files.get?_set_self _ hne] at hget
      exact ⟨bytes, (Option.some.inj hget).symm⟩
    · rw [Files.get?_set_of_ne _ hplace] at hget
      exact h.files id' node hvalid' hget

end Ready

/-- A run log is put in the directory. -/
theorem Ready.on_save {made : Files} {log : RunLog} (hvalid : RunId.isValid log.runId = true)
    (h : Ready layout m.files made dir) :
    on m (save layout log) = (.ok (), { m with
      files := made.set (dir ++ [log.runId ++ ".json"]) (.file log.render.toUTF8) }) :=
  Store.on_save m layout log h.makes (Files.replace_join (runsDir_ne_empty layout) (RunId.isName hvalid)
    (h.fits _ hvalid) h.walked (h.not_link hvalid) (h.not_dir hvalid) log.render.toUTF8)

/-- **A run log that was saved is loaded again as it was, and every other one is loaded as before.** -/
theorem save_load {made : Files} (log : RunLog) (hvalid : RunId.isValid log.runId = true)
    (h : Ready layout m.files made dir) :
    ∃ m', on m (save layout log) = (.ok (), m') ∧
      on m' (load layout log.runId) = (.ok log, m') ∧
      ∀ other, other ≠ log.runId → (on m' (load layout other)).1 = (on m (load layout other)).1 := by
  have hplace : dir ++ [log.runId ++ ".json"] ≠ [] :=
    List.append_ne_nil_of_right_ne_nil _ (List.cons_ne_nil _ _)
  have hput := h.put hvalid log.render.toUTF8
  refine ⟨_, h.on_save hvalid, ?_, fun other hother => ?_⟩
  · have hnode := hput.node_runPath hvalid
    rw [Files.get?_set_self _ hplace] at hnode
    rw [on_load, loadFrom_of_render hvalid hnode]
  · rw [on_load, on_load]
    by_cases hvalid' : RunId.isValid other = true
    · have hne : dir ++ [other ++ ".json"] ≠ dir ++ [log.runId ++ ".json"] := by
        intro heq
        have hname := List.cons.inj (List.append_cancel_left heq)
        exact hother ((String.append_left_inj _).1 hname.1)
      have hnode := hput.node_runPath hvalid'
      rw [Files.get?_set_of_ne _ hne, ← h.node_runPath hvalid'] at hnode
      rw [loadFrom_congr hnode, h.loadFrom_made hvalid']
    · rw [loadFrom, if_neg hvalid', loadFrom, if_neg hvalid']

/-- A machine with a state directory in which nothing was put yet. -/
def blank : Machine := { files := { nodes := [(["s"], .dir)] } }

/-- The run log of a run that was stopped in its second step. -/
def webLog : RunLog where
  runId := "20260102030405678-0badcafe"
  startedAt := "2026-01-02T03:04:05.678+00:00"
  status := .running
  plan := ["web", "naïve \"step\"\n"]
  inFlight := some
    ⟨"naïve \"step\"\n", .service { name := "cache", active := some true, refresh := some .reload },
      "2026-01-02T03:04:06.001+00:00"⟩
  entries := [⟨"web", .applied (.service [.enable, .start]), some (.service { name := "web" }),
    "2026-01-02T03:04:06+00:00"⟩]

theorem leads_state {fs : Files} (hget : fs.get? ["s"] = some .dir) :
    Files.Leads fs Files.maxLinks (fs.origin ⟨"/s"⟩) (Path.pieces ⟨"/s"⟩) ["s"] :=
  .down ⟨by decide, by decide, by decide⟩ hget (.nil _ _)

/-- The directory of run logs can be made there. -/
theorem ready_blank : Ready ⟨⟨"/s"⟩⟩ blank.files (blank.files.set ["s", "runs"] .dir) ["s", "runs"] := by
  have hfits : Files.Fits (Path.join ⟨"/s"⟩ "runs") := ⟨by decide, by decide, by decide⟩
  have hnothing : ∀ name, (blank.files.set ["s", "runs"] .dir).get? ["s", "runs", name] = none := by
    intro name
    rw [Files.get?_set_of_ne _ (by simp)]
    rfl
  have hnode : (blank.files.set ["s", "runs"] .dir).node (Path.join ⟨"/s"⟩ "runs") =
      .ok (["s", "runs"], .dir) :=
    Files.node_join (by decide) isName_runs hfits (leads_state rfl) (fun target => by
      change (blank.files.set ["s", "runs"] .dir).get? ["s", "runs"] ≠ _
      rw [Files.get?_set_self _ (by simp)]
      simp)
  have hfree : blank.files.lookup false (Path.join ⟨"/s"⟩ "runs") = .ok (.free ["s", "runs"]) :=
    Files.lookup_join (by decide) isName_runs hfits (leads_state rfl) (fun target h => by cases h) false
  refine ⟨?_, hnode, fun _ id _ => hnothing _, fun id node _ hget => ?_, fun id hvalid =>
    fits_runPath hfits (by decide) hvalid⟩
  · have hbare : Files.bare (Path.join ⟨"/s"⟩ "runs") = Path.join ⟨"/s"⟩ "runs" := by decide
    rw [Layout.runsDir, Files.makeDirs, Files.makeDirsUpTo, if_neg (by decide), Files.makeDir, hbare, hfree]
    rfl
  · rw [List.cons_append, List.cons_append, List.nil_append, hnothing] at hget
    cases hget

/-- A run log is saved in a directory that is made for it. -/
theorem save_load_blank : RunId.isValid webLog.runId = true ∧
    Ready ⟨⟨"/s"⟩⟩ blank.files (blank.files.set ["s", "runs"] .dir) ["s", "runs"] ∧
    ∃ m', on blank (save ⟨⟨"/s"⟩⟩ webLog) = (.ok (), m') ∧
      on m' (load ⟨⟨"/s"⟩⟩ webLog.runId) = (.ok webLog, m') ∧
      ∀ other, other ≠ webLog.runId →
        (on m' (load ⟨⟨"/s"⟩⟩ other)).1 = (on blank (load ⟨⟨"/s"⟩⟩ other)).1 :=
  ⟨by decide, ready_blank, save_load webLog (by decide) ready_blank⟩

end Store

end Provision
