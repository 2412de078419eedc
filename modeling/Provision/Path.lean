/-!
# Paths

A path keeps the text it was written as, since that is how it is shown, and is
compared by its components: repeated separators, a trailing separator and
components `.` inside the path do not count; `..` and a leading `.` do.

* `Path.components`: the components, in order.
* `Path.same`: equality by component; an equivalence (`same_refl`, `same_symm`,
  `same_trans`).
* `Path.join`: an absolute second path replaces the first.
-/

namespace Provision

/-- A path, kept as written. -/
structure Path where
  text : String
deriving DecidableEq, Inhabited, Repr

namespace Path

/-- A component of a path. -/
inductive Component where
  | root
  | here
  | up
  | name (s : String)
deriving DecidableEq, Repr

/-- Absolute paths start with the separator. -/
def isAbsolute (p : Path) : Bool := p.text.toList.head? == some '/'

/-- The pieces between separators that are not empty. -/
def pieces (p : Path) : List String :=
  ((p.text.toList.splitOn '/').filter (· ≠ [])).map .ofList

/-- The component that a piece stands for. -/
def Component.ofPiece (s : String) : Component := if s = ".." then .up else .name s

/-- The components of a path. A `.` counts only where it starts a relative
path. -/
def components (p : Path) : List Component :=
  if p.isAbsolute then
    .root :: (p.pieces.filter (· ≠ ".")).map .ofPiece
  else
    (if p.pieces.head? = some "." then [.here] else []) ++
      (p.pieces.filter (· ≠ ".")).map .ofPiece

/-- Equality by component. -/
def same (p q : Path) : Bool := p.components == q.components

theorem same_iff {p q : Path} : p.same q = true ↔ p.components = q.components := by
  simp [same]

@[simp] theorem same_refl (p : Path) : p.same p = true := same_iff.2 rfl

theorem same_symm {p q : Path} (h : p.same q = true) : q.same p = true :=
  same_iff.2 (same_iff.1 h).symm

theorem same_trans {p q r : Path} (h : p.same q = true) (h' : q.same r = true) :
    p.same r = true :=
  same_iff.2 ((same_iff.1 h).trans (same_iff.1 h'))

/-- The second path seen from the first; an absolute one stands for itself. -/
def join (p : Path) (s : String) : Path :=
  if (Path.mk s).isAbsolute then ⟨s⟩
  else if p.text = "" ∨ p.text.toList.getLast? = some '/' then ⟨p.text ++ s⟩
  else ⟨p.text ++ "/" ++ s⟩

/-- The path without its last component; the root and the empty path have no
parent. -/
def parent? (p : Path) : Option Path :=
  match p.pieces.reverse.dropWhile (· = ".") with
  | [] => if p.isAbsolute ∨ p.pieces = [] then none else some ⟨""⟩
  | _ :: before =>
    let body := "/".intercalate before.reverse
    some ⟨if p.isAbsolute then "/" ++ body else body⟩

end Path

instance : ToString Path where
  toString p := p.text

end Provision
