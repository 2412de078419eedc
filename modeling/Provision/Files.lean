import Provision.IoError
import Provision.Path

/-!
# A tree of files

Directories, files and symbolic links by their place, the list of names from
the root. A path is looked up the way the kernel does it: from the root or the
working directory, one piece at a time, through at most forty links.

* `Files.lookup`: where a path leads.
* `Files.canonical?`, `readText`, `names`: what can be read there.
* `Files.makeDirs`, `write`, `replace`, `touch`: what can be changed.
* `get?_set_self`, `get?_set_of_ne`: a change at one place shows there and
  nowhere else.
-/

namespace Provision

/-- A place in the tree: the names from the root down. -/
abbrev Place := List String

/-- What is found at a place. -/
inductive Node where
  | dir
  | file (bytes : ByteArray)
  | link (target : String)

/-- A tree of files, and the working directory. The root is always there. -/
structure Files where
  nodes : List (Place × Node) := []
  workingDir : Place := []

namespace Files

/-- Where a path leads: to a node, or to a free name in a directory. -/
inductive Spot where
  | taken (place : Place) (node : Node)
  | free (place : Place)

/-- The node at a place. -/
def get? (fs : Files) (place : Place) : Option Node :=
  if place = [] then some .dir else fs.nodes.lookup place

/-- The tree with a node put at a place. -/
def set (fs : Files) (place : Place) (node : Node) : Files :=
  { fs with nodes := (place, node) :: fs.nodes.filter (·.1 ≠ place) }

/-- The tree without the node at a place. -/
def erase (fs : Files) (place : Place) : Files :=
  { fs with nodes := fs.nodes.filter (·.1 ≠ place) }

/-- The names in the directory at a place, in the order in which the tree keeps them. -/
def childNames (fs : Files) (place : Place) : List String :=
  fs.nodes.filterMap fun (p, _) => if p.dropLast = place then p.getLast? else none

theorem get?_set_self (fs : Files) {place : Place} (h : place ≠ []) (node : Node) :
    (fs.set place node).get? place = some node := by
  simp [get?, set, h]

theorem lookup_filter_ne {place other : Place} (h : other ≠ place) (nodes : List (Place × Node)) :
    (nodes.filter (·.1 ≠ place)).lookup other = nodes.lookup other := by
  induction nodes with
  | nil => rfl
  | cons x xs ih =>
    obtain ⟨p, n⟩ := x
    by_cases hp : p = place
    · have hb : (other == p) = false := by simpa [hp] using h
      rw [List.filter_cons_of_neg (by simpa using hp), List.lookup_cons, hb, ih]
    · rw [List.filter_cons_of_pos (by simpa using hp), List.lookup_cons, List.lookup_cons, ih]

theorem get?_set_of_ne (fs : Files) {place other : Place} (h : other ≠ place) (node : Node) :
    (fs.set place node).get? other = fs.get? other := by
  have hb : (other == place) = false := by simpa using h
  simp only [get?, set, List.lookup_cons, hb, lookup_filter_ne h]

/-- How many symbolic links one path may lead through. -/
def maxLinks : Nat := 40

/-- Follow names from a directory. A link that is the last name is followed
only when `follow` is set. -/
def walk (fs : Files) (follow : Bool) (links : Nat) (dir : Place) :
    List String → Except IoError Spot
  | [] => .ok (.taken dir .dir)
  | name :: rest =>
    if name = "." then fs.walk follow links dir rest
    else if name = ".." then fs.walk follow links dir.dropLast rest
    else if name.utf8ByteSize > 255 then .error .nameTooLong
    else
      match fs.get? (dir ++ [name]) with
      | none => if rest = [] then .ok (.free (dir ++ [name])) else .error .notFound
      | some .dir => fs.walk follow links (dir ++ [name]) rest
      | some (.file bytes) =>
        if rest = [] then .ok (.taken (dir ++ [name]) (.file bytes)) else .error .notADirectory
      | some (.link target) =>
        if rest = [] ∧ !follow then .ok (.taken (dir ++ [name]) (.link target))
        else
          match links with
          | 0 => .error .tooManyLinks
          | links + 1 =>
            fs.walk follow links (if (Path.mk target).isAbsolute then [] else dir)
              (steps target ++ rest)
  termination_by names => (links, names.length)
where
  /-- The names to follow; a separator at the end asks for a directory. -/
  steps (text : String) : List String :=
    (Path.mk text).pieces ++ (if text.toList.getLast? = some '/' then ["."] else [])

/-- Where a path leads. -/
def lookup (fs : Files) (follow : Bool) (p : Path) : Except IoError Spot :=
  if p.text = "" then .error .notFound
  else if p.text.toList.contains '\x00' then .error .nulInName
  else if p.text.utf8ByteSize ≥ 4096 then .error .nameTooLong
  else fs.walk follow maxLinks (if p.isAbsolute then [] else fs.workingDir) (walk.steps p.text)

/-- What a path leads to, through links. -/
def node (fs : Files) (p : Path) : Except IoError (Place × Node) := do
  match ← fs.lookup true p with
  | .taken place node => .ok (place, node)
  | .free _ => .error .notFound

/-- Whether a path leads to anything. -/
def exists? (fs : Files) (p : Path) : Bool := (fs.node p).isOk

/-- Whether a path leads to a directory. -/
def isDir (fs : Files) (p : Path) : Bool :=
  match fs.node p with
  | .ok (_, .dir) => true
  | _ => false

/-- The absolute path of a place. -/
def pathOf (place : Place) : Path := ⟨"/" ++ "/".intercalate place⟩

/-- The absolute path without links that a path leads to. -/
def canonical? (fs : Files) (p : Path) : Option Path :=
  match fs.node p with
  | .ok (place, _) => some (pathOf place)
  | .error _ => none

/-- The bytes of a file. -/
def readBytes (fs : Files) (p : Path) : Except IoError ByteArray := do
  match ← fs.node p with
  | (_, .file bytes) => .ok bytes
  | _ => .error .isADirectory

/-- The text of a file. -/
def readText (fs : Files) (p : Path) : Except IoError String := do
  match String.fromUTF8? (← fs.readBytes p) with
  | some text => .ok text
  | none => .error .notText

/-- The names in a directory, in no order that means anything. -/
def names (fs : Files) (p : Path) : Except IoError (List String) := do
  match ← fs.node p with
  | (place, .dir) => .ok (fs.childNames place)
  | _ => .error .notADirectory

/-- The path without the separators at its end. -/
def bare (p : Path) : Path :=
  ⟨(if p.isAbsolute then "/" else "") ++ "/".intercalate p.pieces⟩

/-- Make one directory. -/
def makeDir (fs : Files) (p : Path) : Except IoError Files := do
  match ← fs.lookup false (bare p) with
  | .taken _ _ => .error .alreadyExists
  | .free place => .ok (fs.set place .dir)

/-- Make a directory and those above it that are missing, trying at most `n`
paths. -/
def makeDirsUpTo (fs : Files) : Nat → Path → Except IoError Files
  | 0, _ => .error .notFound
  | n + 1, p =>
    if p.text = "" then .ok fs
    else
      match fs.makeDir p with
      | .ok fs => .ok fs
      | .error .notFound =>
        match p.parent? with
        | none => .error .notFound
        | some parent => do
          let fs ← fs.makeDirsUpTo n parent
          orDir fs p (fs.makeDir p)
      | .error e => orDir fs p (.error e)
where
  /-- A directory that is already there is as good as a new one. -/
  orDir (fs : Files) (p : Path) (made : Except IoError Files) : Except IoError Files :=
    match made with
    | .ok fs => .ok fs
    | .error e => if fs.isDir p then .ok fs else .error e

/-- Make a directory and those above it that are missing. -/
def makeDirs (fs : Files) (p : Path) : Except IoError Files :=
  fs.makeDirsUpTo (p.pieces.length + 2) p

/-- Write a file, through links. -/
def write (fs : Files) (p : Path) (bytes : ByteArray) : Except IoError Files := do
  match ← fs.lookup true p with
  | .taken _ .dir => .error .isADirectory
  | .taken place _ | .free place => .ok (fs.set place (.file bytes))

/-- Make an empty file unless there is one, through links. -/
def touch (fs : Files) (p : Path) : Except IoError Files := do
  match ← fs.lookup true p with
  | .taken _ .dir => .error .isADirectory
  | .taken _ _ => .ok fs
  | .free place => .ok (fs.set place (.file .empty))

/-- Put a whole new file in the place of what has that name; a link is
replaced itself, not what it points to. -/
def replace (fs : Files) (p : Path) (bytes : ByteArray) : Except IoError Files := do
  match ← fs.lookup false p with
  | .taken _ .dir => .error .isADirectory
  | .taken place _ | .free place => .ok (fs.set place (.file bytes))

/-- Remove a file or a link. -/
def remove (fs : Files) (p : Path) : Except IoError Files := do
  match ← fs.lookup false p with
  | .taken _ .dir => .error .isADirectory
  | .taken place _ => .ok (fs.erase place)
  | .free _ => .error .notFound

/-- Make a symbolic link. -/
def link (fs : Files) (p : Path) (target : String) : Except IoError Files := do
  match ← fs.lookup false p with
  | .taken _ _ => .error .alreadyExists
  | .free place => .ok (fs.set place (.link target))

end Files

end Provision
