import Provision.Files
import Provision.Proofs.Faults

/-!
# Where paths lead

* `Path.pieces_join`: the pieces of a path to something in a directory.
* `Files.Walks`, `walks_of_walk`: how a path is walked that leads somewhere.
* `Files.Leads`: names lead from a directory to another one, through links.
* `Leads.walk_snoc`, `lookup_join`: what a path leads to is what stands at its last name.
* `Leads.set`: a file that is written is in no one's way.
* `isDir_of_join`: what a path leads to is in a directory.
* `makeDirs_of_node`: making a directory that is there changes nothing.
-/

namespace Provision

namespace Path

variable {p : Path} {name : String}

/-- What is looked up in a directory under its name. -/
structure IsEntry (name : String) : Prop where
  ne_here : name ≠ "."
  ne_up : name ≠ ".."
  short : ¬name.utf8ByteSize > 255

/-- The name of something that can stand in a directory. -/
structure IsName (name : String) : Prop extends IsEntry name where
  ne_empty : name ≠ ""
  noSlash : '/' ∉ name.toList
  noNul : '\x00' ∉ name.toList

/-- The pieces of a text, as characters. -/
def parts (s : List Char) : List (List Char) := (s.splitOn '/').filter (· ≠ [])

theorem pieces_eq (p : Path) : p.pieces = (parts p.text.toList).map .ofList := rfl

theorem parts_append (s t : List Char) : parts (s ++ '/' :: t) = parts s ++ parts t := by
  rw [parts, List.splitOn_append_cons_self, List.filter_append]
  rfl

theorem parts_of_notMem {s : List Char} (h : '/' ∉ s) (hne : s ≠ []) : parts s = [s] := by
  rw [parts, List.splitOn_eq_singleton h, List.filter_cons_of_pos (by simpa using hne), List.filter_nil]

theorem parts_nil : parts [] = [] := rfl

theorem notMem_of_mem_splitOn {c : Char} : ∀ {s part : List Char}, part ∈ s.splitOn c → c ∉ part
  | [], part, h => by
    rw [List.splitOn_nil, List.mem_singleton] at h
    simp [h]
  | x :: s, part, h => by
    rw [List.splitOn_cons_eq_if_modifyHead] at h
    split at h
    · rcases List.mem_cons.1 h with rfl | h
      · simp
      · exact notMem_of_mem_splitOn h
    · rename_i hx
      obtain ⟨first, rest, hsplit⟩ := List.exists_cons_of_ne_nil (List.splitOn_ne_nil c s)
      rw [hsplit, List.modifyHead_cons] at h
      rcases List.mem_cons.1 h with rfl | h
      · have hfirst : c ∉ first := notMem_of_mem_splitOn (hsplit ▸ List.mem_cons_self)
        intro hmem
        rcases List.mem_cons.1 hmem with rfl | hmem
        · exact hx (beq_self_eq_true _)
        · exact hfirst hmem
      · exact notMem_of_mem_splitOn (hsplit ▸ List.mem_cons_of_mem _ h)

theorem notMem_of_mem_parts {s part : List Char} (h : part ∈ parts s) : '/' ∉ part ∧ part ≠ [] := by
  obtain ⟨hsplit, hne⟩ := List.mem_filter.1 h
  exact ⟨notMem_of_mem_splitOn hsplit, by simpa using hne⟩

theorem parts_intercalate {s : List Char} (hne : parts s ≠ []) :
    parts (['/'].intercalate (parts s)) = parts s := by
  rw [parts, List.splitOn_intercalate '/' (fun part h => (notMem_of_mem_parts h).1) hne]
  exact List.filter_eq_self.2 fun part h => by simpa using (notMem_of_mem_parts h).2

/-- A path written without the separators at its end, and without repeated ones. -/
theorem toList_bare (p : Path) : (Files.bare p).text.toList =
    (if p.isAbsolute then ['/'] else []) ++ ['/'].intercalate (parts p.text.toList) := by
  have hpieces : p.pieces.map String.toList = parts p.text.toList := by
    rw [pieces_eq, List.map_map]
    simp [Function.comp_def]
  rw [Files.bare, String.toList_append, String.toList_intercalate, hpieces]
  split <;> rfl

theorem pieces_bare (hne : p.pieces ≠ []) : (Files.bare p).pieces = p.pieces := by
  have hparts : parts p.text.toList ≠ [] := by simpa [pieces_eq] using hne
  rw [pieces_eq, pieces_eq, toList_bare]
  split
  · rw [List.singleton_append, ← List.nil_append ('/' :: _), parts_append, parts_nil, List.nil_append,
      parts_intercalate hparts]
  · rw [List.nil_append, parts_intercalate hparts]

theorem isAbsolute_bare (hne : p.pieces ≠ []) : (Files.bare p).isAbsolute = p.isAbsolute := by
  have hparts : parts p.text.toList ≠ [] := by simpa [pieces_eq] using hne
  obtain ⟨first, rest, hfirst⟩ := List.exists_cons_of_ne_nil hparts
  have hmem : first ∈ parts p.text.toList := hfirst ▸ List.mem_cons_self
  obtain ⟨c, chars, rfl⟩ := List.exists_cons_of_ne_nil (notMem_of_mem_parts hmem).2
  have hc : c ≠ '/' := fun h => (notMem_of_mem_parts hmem).1 (h ▸ List.mem_cons_self)
  cases habsolute : p.isAbsolute with
  | true =>
    rw [isAbsolute, toList_bare, habsolute]
    rfl
  | false =>
    have hhead : (Files.bare p).text.toList.head? = some c := by
      rw [toList_bare, habsolute, hfirst]
      cases rest <;> simp [List.intercalate]
    simp [isAbsolute, hhead, hc]

/-- The text of a path to something in a directory. -/
theorem toList_join (hp : p.text ≠ "") (hname : IsName name) : ∃ s,
    (p.join name).text.toList = s ++ '/' :: name.toList ∧ parts p.text.toList = parts s ∧
      (p.join name).isAbsolute = p.isAbsolute := by
  have hrelative : (Path.mk name).isAbsolute = false := by
    rw [isAbsolute, beq_eq_false_iff_ne]
    exact fun h => hname.noSlash (List.mem_of_mem_head? h)
  unfold join
  rw [if_neg (by simp [hrelative])]
  by_cases hend : p.text.toList.getLast? = some '/'
  · obtain ⟨s, hs⟩ := List.getLast?_eq_some_iff.1 hend
    rw [if_pos (.inr hend)]
    refine ⟨s, by simp [hs], ?_, ?_⟩
    · rw [hs, parts_append, parts_nil, List.append_nil]
    · cases s <;> simp [isAbsolute, hs]
  · have hne : p.text.toList ≠ [] := by simpa using hp
    rw [if_neg (by simp [hp, hend])]
    refine ⟨p.text.toList, by simp, rfl, ?_⟩
    obtain ⟨c, s, hs⟩ := List.exists_cons_of_ne_nil hne
    simp [isAbsolute, hs]

/-- **The pieces of a path to something in a directory.** -/
theorem pieces_join (hp : p.text ≠ "") (hname : IsName name) :
    (p.join name).pieces = p.pieces ++ [name] := by
  obtain ⟨s, htext, hparts, -⟩ := toList_join hp hname
  have hne : name.toList ≠ [] := by simpa using hname.ne_empty
  rw [pieces_eq, pieces_eq, htext, parts_append, hparts, parts_of_notMem hname.noSlash hne]
  simp

theorem steps_join (hp : p.text ≠ "") (hname : IsName name) :
    Files.walk.steps (p.join name).text = p.pieces ++ [name] := by
  obtain ⟨s, htext, -⟩ := toList_join hp hname
  have hne : name.toList ≠ [] := by simpa using hname.ne_empty
  have hlast : (p.join name).text.toList.getLast? ≠ some '/' := by
    rw [htext, List.append_cons, List.getLast?_append_of_ne_nil _ hne]
    exact fun h => hname.noSlash (List.mem_of_getLast? h)
  have hpieces := pieces_join hp hname
  rw [Files.walk.steps, if_neg hlast, List.append_nil]
  exact hpieces

end Path

namespace Files

variable {fs : Files} {links : Nat} {dir dest : Place} {names : List String} {name : String}

/-- How names are walked from a directory, and what they lead to. -/
inductive Walks (fs : Files) (follow : Bool) : Nat → Place → List String → Spot → Prop
  | nil (links : Nat) (dir : Place) : Walks fs follow links dir [] (.taken dir .dir)
  | here {links : Nat} {dir : Place} {rest : List String} {spot : Spot}
      (h : Walks fs follow links dir rest spot) : Walks fs follow links dir ("." :: rest) spot
  | up {links : Nat} {dir : Place} {rest : List String} {spot : Spot}
      (h : Walks fs follow links dir.dropLast rest spot) : Walks fs follow links dir (".." :: rest) spot
  | free {links : Nat} {dir : Place} {name : String} (hname : Path.IsEntry name)
      (hget : fs.get? (dir ++ [name]) = none) :
      Walks fs follow links dir [name] (.free (dir ++ [name]))
  | file {links : Nat} {dir : Place} {name : String} {bytes : ByteArray} (hname : Path.IsEntry name)
      (hget : fs.get? (dir ++ [name]) = some (.file bytes)) :
      Walks fs follow links dir [name] (.taken (dir ++ [name]) (.file bytes))
  | link {links : Nat} {dir : Place} {name target : String} (hname : Path.IsEntry name)
      (hget : fs.get? (dir ++ [name]) = some (.link target)) (hfollow : follow = false) :
      Walks fs follow links dir [name] (.taken (dir ++ [name]) (.link target))
  | down {links : Nat} {dir : Place} {name : String} {rest : List String} {spot : Spot}
      (hname : Path.IsEntry name) (hget : fs.get? (dir ++ [name]) = some .dir)
      (h : Walks fs follow links (dir ++ [name]) rest spot) : Walks fs follow links dir (name :: rest) spot
  | through {links : Nat} {dir : Place} {name target : String} {rest : List String} {spot : Spot}
      (hname : Path.IsEntry name) (hget : fs.get? (dir ++ [name]) = some (.link target))
      (hfollow : ¬(rest = [] ∧ (!follow) = true))
      (h : Walks fs follow links (if (Path.mk target).isAbsolute then [] else dir)
        (walk.steps target ++ rest) spot) : Walks fs follow (links + 1) dir (name :: rest) spot

theorem walk_down {rest : List String} (hname : Path.IsEntry name)
    (hget : fs.get? (dir ++ [name]) = some .dir) (follow : Bool) :
    fs.walk follow links dir (name :: rest) = fs.walk follow links (dir ++ [name]) rest := by
  rw [walk, if_neg hname.ne_here, if_neg hname.ne_up, if_neg hname.short, hget]

theorem walk_through {rest : List String} {target : String} (hname : Path.IsEntry name)
    (hget : fs.get? (dir ++ [name]) = some (.link target)) (follow : Bool)
    (hfollowed : ¬(rest = [] ∧ (!follow) = true)) :
    fs.walk follow (links + 1) dir (name :: rest) =
      fs.walk follow links (if (Path.mk target).isAbsolute then [] else dir)
        (walk.steps target ++ rest) := by
  rw [walk, if_neg hname.ne_here, if_neg hname.ne_up, if_neg hname.short, hget]
  simp only [hfollowed, if_false]

section

variable {bytes : ByteArray} {rest : List String} (hname : Path.IsEntry name)

include hname

theorem walk_free (hget : fs.get? (dir ++ [name]) = none) :
    fs.walk follow links dir (name :: rest) =
      if rest = [] then .ok (.free (dir ++ [name])) else .error .notFound := by
  rw [walk, if_neg hname.ne_here, if_neg hname.ne_up, if_neg hname.short, hget]

theorem walk_file (hget : fs.get? (dir ++ [name]) = some (.file bytes)) :
    fs.walk follow links dir (name :: rest) =
      if rest = [] then .ok (.taken (dir ++ [name]) (.file bytes)) else .error .notADirectory := by
  rw [walk, if_neg hname.ne_here, if_neg hname.ne_up, if_neg hname.short, hget]

theorem walk_link {target : String} (hget : fs.get? (dir ++ [name]) = some (.link target)) :
    fs.walk false links dir [name] = .ok (.taken (dir ++ [name]) (.link target)) := by
  rw [walk, if_neg hname.ne_here, if_neg hname.ne_up, if_neg hname.short, hget]
  rfl

end

/-- A path that leads somewhere is walked. -/
theorem walks_of_walk {follow : Bool} {spot : Spot} (h : fs.walk follow links dir names = .ok spot) :
    Walks fs follow links dir names spot := by
  induction links, dir, names using walk.induct fs follow with
  | case1 links dir =>
    rw [walk] at h
    rw [← Except.ok.inj h]
    exact .nil links dir
  | case2 links dir rest ih =>
    rw [walk, if_pos rfl] at h
    exact .here (ih h)
  | case3 links dir rest hne ih =>
    rw [walk, if_neg hne, if_pos rfl] at h
    exact .up (ih h)
  | case4 links dir name rest hhere hup hlong =>
    rw [walk, if_neg hhere, if_neg hup, if_pos hlong] at h
    cases h
  | case5 links dir name hhere hup hshort hget =>
    rw [walk_free ⟨hhere, hup, hshort⟩ hget, if_pos rfl] at h
    rw [← Except.ok.inj h]
    exact .free ⟨hhere, hup, hshort⟩ hget
  | case6 links dir name rest hhere hup hshort hget hrest =>
    rw [walk_free ⟨hhere, hup, hshort⟩ hget, if_neg hrest] at h
    cases h
  | case7 links dir name rest hhere hup hshort hget ih =>
    rw [walk_down ⟨hhere, hup, hshort⟩ hget] at h
    exact .down ⟨hhere, hup, hshort⟩ hget (ih h)
  | case8 links dir name hhere hup hshort bytes hget =>
    rw [walk_file ⟨hhere, hup, hshort⟩ hget, if_pos rfl] at h
    rw [← Except.ok.inj h]
    exact .file ⟨hhere, hup, hshort⟩ hget
  | case9 links dir name rest hhere hup hshort bytes hget hrest =>
    rw [walk_file ⟨hhere, hup, hshort⟩ hget, if_neg hrest] at h
    cases h
  | case10 links dir name rest hhere hup hshort target hget hlast =>
    obtain ⟨rfl, hfollow⟩ := hlast
    obtain rfl : follow = false := by simpa using hfollow
    rw [walk_link ⟨hhere, hup, hshort⟩ hget] at h
    rw [← Except.ok.inj h]
    exact .link ⟨hhere, hup, hshort⟩ hget rfl
  | case11 dir name rest hhere hup hshort target hget hlast =>
    rw [walk, if_neg hhere, if_neg hup, if_neg hshort, hget] at h
    simp only [hlast, if_false] at h
    cases h
  | case12 dir name rest hhere hup hshort target hget hlast links ih =>
    rw [walk_through ⟨hhere, hup, hshort⟩ hget _ hlast] at h
    exact .through ⟨hhere, hup, hshort⟩ hget hlast (ih h)

/-- Names lead from a directory to another one, through a number of links at most. -/
inductive Leads (fs : Files) : Nat → Place → List String → Place → Prop
  | nil (links : Nat) (dir : Place) : Leads fs links dir [] dir
  | here {links : Nat} {dir dest : Place} {rest : List String} (h : Leads fs links dir rest dest) :
    Leads fs links dir ("." :: rest) dest
  | up {links : Nat} {dir dest : Place} {rest : List String} (h : Leads fs links dir.dropLast rest dest) :
    Leads fs links dir (".." :: rest) dest
  | down {links : Nat} {dir dest : Place} {name : String} {rest : List String} (hname : Path.IsEntry name)
    (hget : fs.get? (dir ++ [name]) = some .dir) (h : Leads fs links (dir ++ [name]) rest dest) :
    Leads fs links dir (name :: rest) dest
  | through {links : Nat} {dir dest : Place} {name target : String} {rest : List String}
    (hname : Path.IsEntry name) (hget : fs.get? (dir ++ [name]) = some (.link target))
    (h : Leads fs links (if (Path.mk target).isAbsolute then [] else dir) (walk.steps target ++ rest)
      dest) :
    Leads fs (links + 1) dir (name :: rest) dest

/-- Names that lead to a directory lead there. -/
theorem Walks.leads {spot : Spot} (h : Walks fs true links dir names spot) (hspot : spot = .taken dest .dir) :
    Leads fs links dir names dest := by
  induction h with
  | nil links dir =>
    obtain ⟨rfl, -⟩ := Spot.taken.inj hspot
    exact .nil links dir
  | here _ ih => exact .here (ih hspot)
  | up _ ih => exact .up (ih hspot)
  | free => cases hspot
  | file => cases hspot
  | link => cases hspot
  | down hname hget _ ih => exact .down hname hget (ih hspot)
  | through hname hget _ _ ih => exact .through hname hget (ih hspot)

/-- Names are led through to the last one of them. -/
theorem Walks.leads_snoc {spot : Spot} {all : List String} (h : Walks fs true links dir all spot)
    (hall : names ++ [name] = all) : ∃ dest, Leads fs links dir names dest := by
  induction h generalizing names with
  | nil links dir => exact absurd hall (by simp)
  | @here links dir rest spot h ih =>
    cases names with
    | nil => exact ⟨dir, .nil links dir⟩
    | cons first names =>
      obtain ⟨rfl, hrest⟩ := List.cons.inj hall
      exact (ih hrest).imp fun _ h => .here h
  | @up links dir rest spot h ih =>
    cases names with
    | nil => exact ⟨dir, .nil links dir⟩
    | cons first names =>
      obtain ⟨rfl, hrest⟩ := List.cons.inj hall
      exact (ih hrest).imp fun _ h => .up h
  | @down links dir entry rest spot hname hget h ih =>
    cases names with
    | nil => exact ⟨dir, .nil links dir⟩
    | cons first names =>
      obtain ⟨rfl, hrest⟩ := List.cons.inj hall
      exact (ih hrest).imp fun _ h => .down hname hget h
  | @through links dir entry target rest spot hname hget hfollow h ih =>
    cases names with
    | nil => exact ⟨dir, .nil _ dir⟩
    | cons first names =>
      obtain ⟨rfl, hrest⟩ := List.cons.inj hall
      have hnames : (walk.steps target ++ names) ++ [name] = walk.steps target ++ rest := by
        rw [List.append_assoc]
        exact congrArg _ hrest
      exact (ih hnames).imp fun _ h => .through hname hget h
  | free | file | link =>
    -- the walk ends at its first name, which is the last one
    obtain rfl : names = [] := by
      simpa using congrArg List.length hall
    exact ⟨_, .nil _ _⟩

/-- What stands at a name in a directory, without following it. -/
def spotAt (fs : Files) (place : Place) : Spot := ((fs.get? place).elim (.free place) (.taken place ·))

/-- What one more name leads to. -/
theorem Leads.walk_snoc (h : Leads fs links dir names dest) : ∃ links', ∀ follow name,
    fs.walk follow links dir (names ++ [name]) = fs.walk follow links' dest [name] := by
  induction h with
  | nil links dir => exact ⟨links, fun _ _ => rfl⟩
  | here _ ih =>
    obtain ⟨links', hlinks⟩ := ih
    exact ⟨links', fun follow name => by rw [List.cons_append, walk, if_pos rfl, hlinks]⟩
  | up _ ih =>
    obtain ⟨links', hlinks⟩ := ih
    refine ⟨links', fun follow name => ?_⟩
    rw [List.cons_append, walk, if_neg (by decide), if_pos rfl, hlinks]
  | down hname hget _ ih =>
    obtain ⟨links', hlinks⟩ := ih
    refine ⟨links', fun follow name => ?_⟩
    rw [List.cons_append, walk_down hname hget, hlinks]
  | through hname hget _ ih =>
    obtain ⟨links', hlinks⟩ := ih
    refine ⟨links', fun follow name => ?_⟩
    rw [List.cons_append, walk_through hname hget _ (by simp), ← List.append_assoc, hlinks]

/-- The last name is not a link. -/
theorem walk_singleton (hname : Path.IsEntry name)
    (hlink : ∀ target, fs.get? (dir ++ [name]) ≠ some (.link target)) (follow : Bool)
    (links : Nat) : fs.walk follow links dir [name] = .ok (fs.spotAt (dir ++ [name])) := by
  rw [walk, if_neg hname.ne_here, if_neg hname.ne_up, if_neg hname.short, spotAt]
  cases hget : fs.get? (dir ++ [name]) with
  | none => simp
  | some node =>
    cases node with
    | dir => simp [walk]
    | file bytes => simp
    | link target => exact absurd hget (hlink target)

/-- Where names lead, a walk goes. -/
theorem Leads.taken (h : Leads fs links dir names dest) :
    fs.walk true links dir names = .ok (.taken dest .dir) := by
  induction h with
  | nil links dir => rw [walk]
  | here _ ih => rw [walk, if_pos rfl, ih]
  | up _ ih => rw [walk, if_neg (by decide), if_pos rfl, ih]
  | down hname hget _ ih => rw [walk_down hname hget, ih]
  | through hname hget _ ih => rw [walk_through hname hget _ (by simp), ih]

/-- A walk to a directory does not pass through a file, or a free place. -/
theorem Leads.set (h : Leads fs links dir names dest) {place : Place} (hdir : fs.get? place ≠ some .dir)
    (hlink : ∀ target, fs.get? place ≠ some (.link target)) (node : Node) :
    Leads (fs.set place node) links dir names dest := by
  induction h with
  | nil links dir => exact .nil links dir
  | here _ ih => exact .here ih
  | up _ ih => exact .up ih
  | @down _ dir _ name _ hname hget _ ih =>
    have hne : dir ++ [name] ≠ place := fun heq => hdir (heq ▸ hget)
    exact .down hname (by rwa [get?_set_of_ne fs hne]) ih
  | @through _ dir _ name target _ hname hget _ ih =>
    have hne : dir ++ [name] ≠ place := fun heq => hlink target (heq ▸ hget)
    exact .through hname (by rwa [get?_set_of_ne fs hne]) ih

/-- Without following the last link, a walk to a directory finds it or a link. -/
theorem Leads.walk_taken (h : Leads fs links dir names dest) (follow : Bool) :
    ∃ place node, fs.walk follow links dir names = .ok (.taken place node) := by
  induction h with
  | nil links dir => exact ⟨dir, .dir, by rw [walk]⟩
  | here _ ih =>
    obtain ⟨place, node, hwalk⟩ := ih
    exact ⟨place, node, by rw [walk, if_pos rfl, hwalk]⟩
  | up _ ih =>
    obtain ⟨place, node, hwalk⟩ := ih
    exact ⟨place, node, by rw [walk, if_neg (by decide), if_pos rfl, hwalk]⟩
  | down hname hget _ ih =>
    obtain ⟨place, node, hwalk⟩ := ih
    exact ⟨place, node, by rw [walk_down hname hget, hwalk]⟩
  | @through links dir dest name target rest hname hget _ ih =>
    obtain ⟨place, node, hwalk⟩ := ih
    by_cases hlast : rest = [] ∧ (!follow) = true
    · refine ⟨dir ++ [name], .link target, ?_⟩
      rw [walk, if_neg hname.ne_here, if_neg hname.ne_up, if_neg hname.short, hget]
      simp [hlast]
    · exact ⟨place, node, by rw [walk_through hname hget _ hlast, hwalk]⟩

/-- The directory from which a path is followed. -/
def origin (fs : Files) (p : Path) : Place := if p.isAbsolute then [] else fs.workingDir

/-- The path is written in a way that can be looked up. -/
structure Fits (p : Path) : Prop where
  ne_empty : p.text ≠ ""
  noNul : '\x00' ∉ p.text.toList
  short : p.text.utf8ByteSize < 4096

theorem lookup_eq {p : Path} (h : Fits p) (follow : Bool) :
    fs.lookup follow p = fs.walk follow maxLinks (fs.origin p) (walk.steps p.text) := by
  rw [lookup, if_neg h.ne_empty, if_neg (by simpa using h.noNul), if_neg (by have := h.short; omega)]
  rfl

theorem fits_of_lookup {p : Path} {follow : Bool} {spot : Spot} (h : fs.lookup follow p = .ok spot) :
    Fits p := by
  unfold lookup at h
  split at h <;> [cases h; rename_i hempty]
  split at h <;> [cases h; rename_i hnul]
  split at h <;> [cases h; rename_i hlong]
  exact ⟨hempty, by simpa using hnul, by omega⟩

/-- What leads somewhere can be looked up. -/
theorem lookup_of_node {p : Path} {found : Place × Node} (h : fs.node p = .ok found) :
    fs.lookup true p = .ok (.taken found.1 found.2) := by
  unfold node at h
  cases hlookup : fs.lookup true p with
  | error e => rw [hlookup] at h; cases h
  | ok spot =>
    rw [hlookup] at h
    cases spot with
    | taken place node => rw [← Except.ok.inj h]
    | free place => cases h

/-- A directory is one that a path leads to. -/
theorem node_of_isDir {p : Path} (h : fs.isDir p = true) : ∃ dest, fs.node p = .ok (dest, .dir) := by
  unfold isDir at h
  split at h
  · exact ⟨_, ‹_›⟩
  · cases h

/-- A directory, as it is looked up. -/
theorem node_eq_dir {p : Path} : fs.node p = .ok (dest, .dir) ↔
    Fits p ∧ fs.walk true maxLinks (fs.origin p) (walk.steps p.text) = .ok (.taken dest .dir) := by
  have hnode : fs.node p = .ok (dest, .dir) ↔ fs.lookup true p = .ok (.taken dest .dir) := by
    unfold node
    cases fs.lookup true p with
    | error e => simp [bind, Except.bind]
    | ok spot => cases spot <;> simp [bind, Except.bind]
  rw [hnode]
  constructor
  · intro h
    have hfits := fits_of_lookup h
    exact ⟨hfits, by rwa [← lookup_eq hfits]⟩
  · rintro ⟨hfits, h⟩
    rwa [lookup_eq hfits]

/-- A directory that a path leads to, where the path does not end with a separator. -/
theorem leads_of_node {p : Path} (h : fs.node p = .ok (dest, .dir))
    (hlast : p.text.toList.getLast? ≠ some '/') :
    Leads fs maxLinks (fs.origin p) p.pieces dest := by
  have hsteps : walk.steps p.text = p.pieces := by
    rw [walk.steps, if_neg hlast, List.append_nil]
  rw [← hsteps]
  exact (walks_of_walk (node_eq_dir.1 h).2).leads rfl

/-- **What a path to something in a directory leads to is what stands there.** -/
theorem lookup_join {p : Path} (hp : p.text ≠ "") (hname : Path.IsName name)
    (hfits : Fits (p.join name)) (hleads : Leads fs maxLinks (fs.origin p) p.pieces dest)
    (hlink : ∀ target, fs.get? (dest ++ [name]) ≠ some (.link target)) (follow : Bool) :
    fs.lookup follow (p.join name) = .ok (fs.spotAt (dest ++ [name])) := by
  have horigin : fs.origin (p.join name) = fs.origin p := by
    obtain ⟨-, -, -, habsolute⟩ := Path.toList_join hp hname
    rw [origin, origin, habsolute]
  obtain ⟨links', hlinks⟩ := hleads.walk_snoc
  rw [lookup_eq hfits, horigin, Path.steps_join hp hname, hlinks,
    walk_singleton hname.toIsEntry hlink]

/-- What stands under a path is in a directory. -/
theorem isDir_of_join {p : Path} {found : Place × Node} (hname : Path.IsName name) (hp : Fits p)
    (hlast : p.text.toList.getLast? ≠ some '/') (h : fs.node (p.join name) = .ok found) :
    fs.isDir p = true := by
  have horigin : fs.origin (p.join name) = fs.origin p := by
    obtain ⟨-, -, -, habsolute⟩ := Path.toList_join hp.ne_empty hname
    rw [origin, origin, habsolute]
  have hspot := lookup_of_node h
  rw [lookup_eq (fits_of_lookup hspot), horigin, Path.steps_join hp.ne_empty hname] at hspot
  obtain ⟨dest, hleads⟩ := (walks_of_walk hspot).leads_snoc rfl
  have hnode : fs.node p = .ok (dest, .dir) := by
    refine node_eq_dir.2 ⟨hp, ?_⟩
    rw [walk.steps, if_neg hlast, List.append_nil]
    exact hleads.taken
  rw [isDir, hnode]

theorem bare_ne_empty {p : Path} (hne : p.pieces ≠ []) : (bare p).text ≠ "" := by
  intro hempty
  have hpieces := Path.pieces_bare hne
  rw [Path.pieces_eq, hempty] at hpieces
  exact hne hpieces.symm

/-- The path without the separators at its end leads to something, too, if it is one to look up. -/
theorem lookup_bare {p : Path} (hleads : Leads fs maxLinks (fs.origin p) p.pieces dest)
    (hne : p.pieces ≠ []) (hfits : Fits (bare p)) :
    ∃ place node, fs.lookup false (bare p) = .ok (.taken place node) := by
  have horigin : fs.origin (bare p) = fs.origin p := by rw [origin, origin, Path.isAbsolute_bare hne]
  have hsteps : walk.steps (bare p).text = p.pieces ++
      if (bare p).text.toList.getLast? = some '/' then ["."] else [] :=
    congrArg (· ++ _) (Path.pieces_bare hne)
  rw [lookup_eq hfits, horigin, hsteps]
  split
  · obtain ⟨links', hlinks⟩ := hleads.walk_snoc
    exact ⟨dest, .dir, by rw [hlinks, walk, if_pos rfl, walk]⟩
  · rw [List.append_nil]
    exact hleads.walk_taken false

/-- A path that is not one to look up is said to be so, and not to lead nowhere. -/
theorem lookup_of_not_fits {p : Path} (hempty : p.text ≠ "") (hfits : ¬Fits p) (follow : Bool) :
    ∃ e, fs.lookup follow p = .error e ∧ e ≠ .notFound := by
  rw [lookup, if_neg hempty]
  by_cases hnul : '\x00' ∈ p.text.toList
  · exact ⟨.nulInName, if_pos (by simpa using hnul), by decide⟩
  · have hlong : p.text.utf8ByteSize ≥ 4096 := by
      by_contra hshort
      exact hfits ⟨hempty, hnul, by omega⟩
    rw [if_neg (by simpa using hnul)]
    exact ⟨.nameTooLong, if_pos hlong, by decide⟩

/-- **Making a directory that is there changes nothing.** -/
theorem makeDirs_of_node {p : Path} (h : fs.node p = .ok (dest, .dir))
    (hlast : p.text.toList.getLast? ≠ some '/') (hne : p.pieces ≠ []) : fs.makeDirs p = .ok fs := by
  have hisDir : fs.isDir p = true := by rw [isDir, h]
  obtain ⟨e, hmake, he⟩ : ∃ e, fs.makeDir p = .error e ∧ e ≠ .notFound := by
    rw [makeDir]
    by_cases hfits : Fits (bare p)
    · obtain ⟨place, node, htaken⟩ := lookup_bare (leads_of_node h hlast) hne hfits
      exact ⟨.alreadyExists, by rw [htaken]; rfl, by decide⟩
    · obtain ⟨e, hlookup, he⟩ : ∃ e, fs.lookup false (bare p) = .error e ∧ e ≠ .notFound :=
        lookup_of_not_fits (bare_ne_empty hne) hfits false
      exact ⟨e, by rw [hlookup]; rfl, he⟩
  rw [makeDirs, makeDirsUpTo, if_neg (node_eq_dir.1 h).1.ne_empty, hmake]
  cases e <;> simp_all [makeDirsUpTo.orDir]

end Files

end Provision
