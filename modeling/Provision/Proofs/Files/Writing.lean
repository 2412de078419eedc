import Provision.Proofs.Files

/-!
# What writing changes

* `Walks.rewalk`: **what a path leads to once a file was put in the tree.**
* `Walks.set_file`: a file that is written again is found as before.
* `Files.Changed`, `Files.Grown`: how one tree differs from another one.
* `makeDirs_grown`, `touch_eq_ok`, `replace_eq_ok`: what each way to write changes.
* `makeDirs_set`: no directory is made that was there before.
-/

namespace Provision

namespace Files

variable {fs fs' fs'' : Files} {places : List Place} {place dir : Place} {links : Nat} {names : List String}
  {follow : Bool} {spot : Spot} {bytes : ByteArray} {p : Path}

/-- A place where a file can be put. -/
def Spot.At (place : Place) : Spot → Prop
  | .taken p node => p = place ∧ node ≠ .dir
  | .free p => p = place

/-- What stands at a spot. -/
def Spot.node? : Spot → Option Node
  | .taken _ node => some node
  | .free _ => none

theorem node?_spotAt (fs : Files) (place : Place) : (fs.spotAt place).node? = fs.get? place := by
  unfold spotAt
  cases fs.get? place <;> rfl

/-- What is found at a place where a file can be put. -/
theorem Walks.found (h : Walks fs follow links dir names spot) (hat : spot.At place) :
    place ≠ [] ∧ spot = fs.spotAt place := by
  have hne : ∀ (dir : Place) (name : String), dir ++ [name] ≠ [] := by simp
  induction h with
  | nil links dir => exact absurd rfl hat.2
  | here _ ih => exact ih hat
  | up _ ih => exact ih hat
  | free _ hget =>
    obtain rfl : _ = place := hat
    exact ⟨hne _ _, by rw [spotAt, hget]; rfl⟩
  | file _ hget =>
    obtain ⟨rfl, -⟩ := hat
    exact ⟨hne _ _, by rw [spotAt, hget]; rfl⟩
  | link _ hget _ =>
    obtain ⟨rfl, -⟩ := hat
    exact ⟨hne _ _, by rw [spotAt, hget]; rfl⟩
  | down _ _ _ ih => exact ih hat
  | through _ _ _ _ ih => exact ih hat

/-- **A file is put in a tree**: what a path leads to after that is this file, or what it led to before,
or nothing any more. -/
theorem Walks.rewalk (h : Walks fs follow links dir names spot) (hne : place ≠ []) (bytes : ByteArray) :
    (fs.set place (.file bytes)).walk follow links dir names = .ok (.taken place (.file bytes)) ∨
      (fs.set place (.file bytes)).walk follow links dir names = .error .notADirectory ∨
      ¬spot.At place ∧ (fs.set place (.file bytes)).walk follow links dir names = .ok spot := by
  generalize hset : fs.set place (.file bytes) = fs'
  have hfile : fs'.get? place = some (.file bytes) := hset ▸ get?_set_self fs hne _
  have hother : ∀ {other}, other ≠ place → fs'.get? other = fs.get? other :=
    fun hother => hset ▸ get?_set_of_ne fs hother _
  -- a walk that passes the place is stopped there
  have hstop : ∀ {links dir name} (rest : List String), Path.IsEntry name → dir ++ [name] = place →
      fs'.walk follow links dir (name :: rest) = .ok (.taken place (.file bytes)) ∨
        fs'.walk follow links dir (name :: rest) = .error .notADirectory := by
    rintro links dir name rest hname rfl
    rw [walk_file hname hfile]
    by_cases hrest : rest = []
    · exact .inl (if_pos hrest)
    · exact .inr (if_neg hrest)
  induction h with
  | nil links dir => exact .inr (.inr ⟨fun hat => hat.2 rfl, by rw [walk]⟩)
  | here _ ih =>
    rw [walk, if_pos rfl]
    exact ih
  | up _ ih =>
    rw [walk, if_neg (by decide), if_pos rfl]
    exact ih
  | @free links dir name hname hget =>
    by_cases heq : dir ++ [name] = place
    · exact (hstop [] hname heq).imp_right .inl
    · exact .inr (.inr ⟨heq, walk_free hname ((hother heq).trans hget)⟩)
  | @file links dir name _ hname hget =>
    by_cases heq : dir ++ [name] = place
    · exact (hstop [] hname heq).imp_right .inl
    · exact .inr (.inr ⟨fun hat => heq hat.1, walk_file hname ((hother heq).trans hget)⟩)
  | @link links dir name target hname hget hfollow =>
    by_cases heq : dir ++ [name] = place
    · exact (hstop [] hname heq).imp_right .inl
    · exact .inr (.inr ⟨fun hat => heq hat.1, hfollow ▸ walk_link hname ((hother heq).trans hget)⟩)
  | @down links dir name rest spot hname hget _ ih =>
    by_cases heq : dir ++ [name] = place
    · exact (hstop rest hname heq).imp_right .inl
    · rw [walk_down hname ((hother heq).trans hget)]
      exact ih
  | @through links dir name target rest spot hname hget hfollow _ ih =>
    by_cases heq : dir ++ [name] = place
    · exact (hstop rest hname heq).imp_right .inl
    · rw [walk_through hname ((hother heq).trans hget) _ hfollow]
      exact ih

/-- **A file that is written again is found as before**, be links followed or not. -/
theorem Walks.set_file {other : ByteArray}
    (h : Walks fs false links dir names (.taken place (.file bytes))) (follow : Bool) :
    (fs.set place (.file other)).walk follow links dir names = .ok (.taken place (.file other)) := by
  obtain ⟨hne, hspot⟩ := h.found ⟨rfl, by simp⟩
  have hfile : fs.get? place = some (.file bytes) := by
    rw [← node?_spotAt, ← hspot]
    rfl
  generalize hend : Spot.taken place (.file bytes) = spot at h
  -- what is passed is not the file
  have hpass : ∀ {at' : Place} {node : Node}, node ≠ .file bytes → fs.get? at' = some node →
      (fs.set place (.file other)).get? at' = some node := by
    intro at' node hnode hget
    rw [get?_set_of_ne fs, hget]
    rintro rfl
    exact hnode (Option.some.inj (hget.symm.trans hfile))
  induction h with
  | nil => cases hend
  | here _ ih => rw [walk, if_pos rfl, ih hend]
  | up _ ih => rw [walk, if_neg (by decide), if_pos rfl, ih hend]
  | free => cases hend
  | file hname _ =>
    obtain ⟨rfl, -⟩ := Spot.taken.inj hend
    exact walk_file hname (get?_set_self fs hne _)
  | link => cases hend
  | down hname hget _ ih => rw [walk_down hname (hpass (by simp) hget), ih hend]
  | through hname hget hfollow _ ih =>
    have hrest : ¬(_ = [] ∧ (!follow) = true) := fun h => hfollow ⟨h.1, rfl⟩
    rw [walk_through hname (hpass (by simp) hget) _ hrest, ih hend]

/-- A file is put where there is one. -/
theorem set_set (fs : Files) (place : Place) (node node' : Node) :
    (fs.set place node).set place node' = fs.set place node' := by
  simp [set]

/-- A whole new file is put where its path leads, in the place of what stood there. -/
theorem replace_eq_ok (h : fs.replace p bytes = .ok fs') :
    ∃ spot place, fs.lookup false p = .ok spot ∧ spot.At place ∧ fs' = fs.set place (.file bytes) := by
  unfold replace at h
  cases hlookup : fs.lookup false p with
  | error e => rw [hlookup] at h; cases h
  | ok spot =>
    rw [hlookup] at h
    refine ⟨spot, ?_⟩
    rcases spot with ⟨place, _ | _ | _⟩ | place
    · cases h
    all_goals exact ⟨place, rfl, by simp [Spot.At], (Except.ok.inj h).symm⟩

/-- Outside some places a tree is as it was. -/
structure Changed (places : List Place) (fs fs' : Files) : Prop where
  workingDir : fs'.workingDir = fs.workingDir
  get : ∀ place, place ∉ places → fs'.get? place = fs.get? place

theorem Changed.refl (places : List Place) (fs : Files) : Changed places fs fs := ⟨rfl, fun _ _ => rfl⟩

theorem Changed.trans {others : List Place} (h : Changed places fs fs') (h' : Changed others fs' fs'') :
    Changed (places ++ others) fs fs'' := by
  refine ⟨h'.workingDir.trans h.workingDir, fun place hplace => ?_⟩
  obtain ⟨hplaces, hothers⟩ := not_or.1 (mt List.mem_append.2 hplace)
  rw [h'.get place hothers, h.get place hplaces]

theorem changed_set (fs : Files) (place : Place) (node : Node) : Changed [place] fs (fs.set place node) :=
  ⟨rfl, fun _ hne => get?_set_of_ne fs (by simpa using hne) node⟩

/-- A tree is as it was, but for directories where nothing was. -/
structure Grown (fs fs' : Files) : Prop where
  workingDir : fs'.workingDir = fs.workingDir
  get : ∀ place, fs'.get? place = fs.get? place ∨ fs.get? place = none ∧ fs'.get? place = some .dir

theorem Grown.refl (fs : Files) : Grown fs fs := ⟨rfl, fun _ => .inl rfl⟩

theorem Grown.trans (h : Grown fs fs') (h' : Grown fs' fs'') : Grown fs fs'' := by
  refine ⟨h'.workingDir.trans h.workingDir, fun place => ?_⟩
  rcases h.get place with heq | ⟨hnone, hdir⟩
  · rw [← heq]
    exact h'.get place
  · rcases h'.get place with heq' | ⟨hnone', -⟩
    · exact .inr ⟨hnone, heq'.trans hdir⟩
    · rw [hdir] at hnone'
      cases hnone'

/-- What a free place is. -/
theorem Walks.free_place (h : Walks fs follow links dir names (.free place)) :
    place ≠ [] ∧ fs.get? place = none := by
  obtain ⟨hne, hspot⟩ := h.found rfl
  refine ⟨hne, ?_⟩
  rw [← node?_spotAt, ← hspot]
  rfl

/-- What is looked up is walked to. -/
theorem walks_of_lookup (h : fs.lookup follow p = .ok spot) :
    Walks fs follow maxLinks (fs.origin p) (walk.steps p.text) spot := by
  rw [lookup_eq (fits_of_lookup h)] at h
  exact walks_of_walk h

theorem makeDir_grown (h : fs.makeDir p = .ok fs') : Grown fs fs' := by
  unfold makeDir at h
  cases hlookup : fs.lookup false (bare p) with
  | error e => rw [hlookup] at h; cases h
  | ok spot =>
    rw [hlookup] at h
    cases spot with
    | taken place node => cases h
    | free place =>
      obtain rfl : fs.set place .dir = fs' := Except.ok.inj h
      obtain ⟨hne, hfree⟩ := (walks_of_lookup hlookup).free_place
      refine ⟨rfl, fun other => ?_⟩
      by_cases heq : other = place
      · exact .inr ⟨heq ▸ hfree, heq ▸ get?_set_self fs hne .dir⟩
      · exact .inl (get?_set_of_ne fs heq .dir)

/-- A directory that cannot be made may be there. -/
theorem orDir_error {e : IoError} (h : makeDirsUpTo.orDir fs p (.error e) = .ok fs') : fs' = fs := by
  rw [makeDirsUpTo.orDir] at h
  split at h
  · exact (Except.ok.inj h).symm
  · cases h

theorem orDir_grown (h : makeDirsUpTo.orDir fs p (fs.makeDir p) = .ok fs') : Grown fs fs' := by
  cases hmake : fs.makeDir p with
  | ok made =>
    rw [hmake] at h
    obtain rfl : made = fs' := Except.ok.inj h
    exact makeDir_grown hmake
  | error e =>
    rw [hmake] at h
    rw [orDir_error h]
    exact .refl fs

/-- **Making a directory makes directories only**, and where nothing was. -/
theorem makeDirsUpTo_grown (n : Nat) : ∀ {p fs fs'}, makeDirsUpTo fs n p = .ok fs' → Grown fs fs' := by
  induction n with
  | zero => exact fun h => nomatch h
  | succ n ih =>
    intro p fs fs' h
    rw [makeDirsUpTo] at h
    split at h
    · rw [← Except.ok.inj h]
      exact .refl fs
    · split at h
      · rename_i hmake
        rw [← Except.ok.inj h]
        exact makeDir_grown hmake
      · split at h
        · cases h
        · rename_i parent _
          -- the directories above come first
          cases habove : makeDirsUpTo fs n parent with
          | error e => rw [habove] at h; cases h
          | ok fs₁ =>
            rw [habove] at h
            exact (ih habove).trans (orDir_grown h)
      · rw [orDir_error h]
        exact .refl fs

theorem makeDirs_grown (h : fs.makeDirs p = .ok fs') : Grown fs fs' := makeDirsUpTo_grown _ h

/-- No directory is made where something stands, or where nothing can. -/
theorem makeDirs_eq_self
    (hblocked : (∃ place node, fs.lookup false (bare p) = .ok (.taken place node)) ∨
      ∃ e, fs.lookup false (bare p) = .error e ∧ e ≠ .notFound)
    (h : fs.makeDirs p = .ok fs') : fs' = fs := by
  obtain ⟨e, hmake, he⟩ : ∃ e, fs.makeDir p = .error e ∧ e ≠ .notFound := by
    rw [makeDir]
    rcases hblocked with ⟨place, node, htaken⟩ | ⟨e, herror, he⟩
    · exact ⟨.alreadyExists, by rw [htaken]; rfl, by decide⟩
    · exact ⟨e, by rw [herror]; rfl, he⟩
  rw [makeDirs, makeDirsUpTo, hmake] at h
  split at h
  · exact (Except.ok.inj h).symm
  · have hor : makeDirsUpTo.orDir fs p (.error e) = .ok fs' := by
      cases e with
      | notFound => exact absurd rfl he
      | _ => exact h
    exact orDir_error hor

section

variable {dest : Place} (hleads : Leads fs maxLinks (fs.origin p) p.pieces dest) (hp : p.pieces ≠ [])

include hleads hp

/-- A directory that is there is not made. -/
theorem makeDirs_of_leads (h : fs.makeDirs p = .ok fs') : fs' = fs := by
  refine makeDirs_eq_self ?_ h
  by_cases hfits : Fits (bare p)
  · exact .inl (lookup_bare hleads hp hfits)
  · exact .inr (lookup_of_not_fits (bare_ne_empty hp) hfits false)

/-- **Where the directory was before a file was put in the tree**, no directory is made: it is there, or
cannot be made any more. -/
theorem makeDirs_set (hne : place ≠ [])
    (h : (fs.set place (.file bytes)).makeDirs p = .ok fs') : fs' = fs.set place (.file bytes) := by
  refine makeDirs_eq_self ?_ h
  by_cases hfits : Fits (bare p)
  · obtain ⟨at', node, htaken⟩ := lookup_bare hleads hp hfits
    have hwalk := (walks_of_lookup htaken).rewalk hne bytes
    rw [lookup_eq hfits]
    rcases hwalk with h | h | ⟨-, h⟩
    · exact .inl ⟨_, _, h⟩
    · exact .inr ⟨_, h, by decide⟩
    · exact .inl ⟨_, _, h⟩
  · exact .inr (lookup_of_not_fits (bare_ne_empty hp) hfits false)

end

/-- What a path leads to once a file was put where it led. -/
theorem lookup_set {spot' : Spot} (h : fs.lookup follow p = .ok spot) (hat : spot.At place)
    (h' : (fs.set place (.file bytes)).lookup follow p = .ok spot') : spot' = .taken place (.file bytes) := by
  have hlook : (fs.set place (.file bytes)).lookup follow p = _ := lookup_eq (fits_of_lookup h) follow
  have hwalks := walks_of_lookup h
  rcases hwalks.rewalk (hwalks.found hat).1 bytes with hwalk | hwalk | ⟨hnot, -⟩
  · rw [hlook.trans hwalk] at h'
    exact (Except.ok.inj h').symm
  · rw [hlook.trans hwalk] at h'
    cases h'
  · exact absurd hat hnot

/-- A file that was put in the place of another one is what its path leads to. -/
theorem node_set {other : ByteArray} (h : fs.lookup false p = .ok (.taken place (.file bytes))) :
    (fs.set place (.file other)).node p = .ok (place, .file other) := by
  have hlook : (fs.set place (.file other)).lookup true p = _ := lookup_eq (fits_of_lookup h) true
  rw [node, hlook.trans ((walks_of_lookup h).set_file true)]
  rfl

/-- What can be listed is a directory. -/
theorem node_of_names {names : List String} (h : fs.names p = .ok names) :
    ∃ dir, fs.node p = .ok (dir, .dir) := by
  unfold Files.names at h
  cases hnode : fs.node p with
  | error e => rw [hnode] at h; cases h
  | ok found =>
    rw [hnode] at h
    rcases found with ⟨dir, _ | _ | _⟩
    · exact ⟨dir, rfl⟩
    all_goals cases h

/-- What can be read is a file. -/
theorem node_of_readText {text : String} (h : fs.readText p = .ok text) :
    ∃ place bytes, fs.node p = .ok (place, .file bytes) := by
  unfold readText readBytes at h
  cases hnode : fs.node p with
  | error e => rw [hnode] at h; cases h
  | ok found =>
    rw [hnode] at h
    rcases found with ⟨place, _ | bytes | _⟩
    · cases h
    · exact ⟨place, bytes, rfl⟩
    · cases h

/-- **What a path to something in a directory leads to** without links being followed: what stands
there, be it a link. -/
theorem lookup_join_self {name : String} {dest : Place} (hp : p.text ≠ "") (hname : Path.IsName name)
    (hfits : Fits (p.join name)) (hleads : Leads fs maxLinks (fs.origin p) p.pieces dest) :
    fs.lookup false (p.join name) = .ok (fs.spotAt (dest ++ [name])) := by
  by_cases hlink : ∃ target, fs.get? (dest ++ [name]) = some (.link target)
  · obtain ⟨target, hget⟩ := hlink
    have horigin : fs.origin (p.join name) = fs.origin p := by
      obtain ⟨-, -, -, habsolute⟩ := Path.toList_join hp hname
      rw [origin, origin, habsolute]
    obtain ⟨links', hlinks⟩ := hleads.walk_snoc
    rw [lookup_eq hfits, horigin, Path.steps_join hp hname, hlinks, walk_link hname.toIsEntry hget, spotAt,
      hget]
    rfl
  · exact lookup_join hp hname hfits hleads (fun target hget => hlink ⟨target, hget⟩) false

/-- A file that is put where a spot is is put at its place. -/
theorem Spot.At.eq {at' : Place} (h : (fs.spotAt at').At place) : at' = place := by
  unfold spotAt at h
  cases hget : fs.get? at' with
  | none => rw [hget] at h; exact h
  | some node => rw [hget] at h; exact h.1

/-- **A file that is touched** is there already, or is made where nothing was. -/
theorem touch_eq_ok {found : Place × Node} (h : fs.touch p = .ok fs') (hnode : fs'.node p = .ok found) :
    fs' = fs ∨ fs.get? found.1 = none ∧ fs' = fs.set found.1 (.file .empty) := by
  unfold touch at h
  cases hlookup : fs.lookup true p with
  | error e => rw [hlookup] at h; cases h
  | ok spot =>
    rw [hlookup] at h
    rcases spot with ⟨place, _ | _ | _⟩ | place
    · cases h
    · exact .inl (Except.ok.inj h).symm
    · exact .inl (Except.ok.inj h).symm
    · obtain rfl : fs.set place (.file .empty) = fs' := Except.ok.inj h
      -- what is there now is what was put there
      have hfound := lookup_set hlookup rfl (lookup_of_node hnode)
      obtain ⟨rfl, -⟩ := Spot.taken.inj hfound
      exact .inr ⟨(walks_of_lookup hlookup).free_place.2, rfl⟩

/-- Names lead to a directory that is there. -/
theorem leads_of_isDir (h : fs.isDir p = true) :
    ∃ dest, Leads fs maxLinks (fs.origin p) p.pieces dest := by
  obtain ⟨dest, hnode⟩ := node_of_isDir h
  by_cases hlast : p.text.toList.getLast? = some '/'
  · have hwalk := (node_eq_dir.1 hnode).2
    rw [walk.steps, if_pos hlast] at hwalk
    exact (walks_of_walk hwalk).leads_snoc rfl
  · exact ⟨dest, leads_of_node hnode hlast⟩

/-- The root is not made. -/
theorem makeDirs_root (h : fs.makeDirs ⟨"/"⟩ = .ok fs') : fs' = fs := by
  have hfits : Fits ⟨"/"⟩ := ⟨by decide, by decide, by decide⟩
  have hsteps : walk.steps "/" = ["."] := by decide
  have hbare : bare ⟨"/"⟩ = ⟨"/"⟩ := by decide
  refine makeDirs_eq_self (.inl ⟨[], .dir, ?_⟩) h
  rw [hbare, lookup_eq hfits, hsteps, walk, if_pos rfl, walk]
  rfl

/-- A directory that is there is not made under another spelling. -/
theorem makeDirs_bare (hdir : fs.isDir p = true) (h : fs.makeDirs (bare p) = .ok fs') : fs' = fs := by
  by_cases hp : p.pieces = []
  · cases habsolute : p.isAbsolute with
    | true =>
      have hbare : bare p = ⟨"/"⟩ := by rw [bare, hp, habsolute]; rfl
      exact makeDirs_root (hbare ▸ h)
    | false =>
      have hbare : bare p = ⟨""⟩ := by rw [bare, hp, habsolute]; rfl
      rw [hbare, makeDirs, makeDirsUpTo, if_pos rfl] at h
      exact (Except.ok.inj h).symm
  · obtain ⟨dest, hleads⟩ := leads_of_isDir hdir
    have horigin : fs.origin (bare p) = fs.origin p := by rw [origin, origin, Path.isAbsolute_bare hp]
    rw [← horigin, ← Path.pieces_bare hp] at hleads
    exact makeDirs_of_leads hleads ((Path.pieces_bare hp).symm ▸ hp) h

end Files

end Provision
