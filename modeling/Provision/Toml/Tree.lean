import Provision.Toml.Value

/-!
# Building a document

Tables come into being in three ways: by a header, because a header names a
table below them, and by a dotted key. Which way it was decides what may still
be added to them.

* `Toml.Tree`: what stands at a key while a document is read.
* `Toml.insertDotted`: a value put at a dotted key.
* `Toml.atHeader`: a change to the table that a header names.
* `Toml.openTable`, `openElement`: what a header itself does.
* `Toml.finish`: the values of a finished table.
-/

namespace Provision.Toml

/-- How a table came into being. -/
inductive Origin where
  /-- By its own header. -/
  | header
  /-- Because a header names a table below it. -/
  | implied
  /-- By a dotted key. -/
  | dotted
deriving DecidableEq, Repr

/-- What stands at a key while a document is read. -/
inductive Tree where
  | value (v : Toml)
  | table (origin : Origin) (entries : List (String × Tree))
  /-- An array of tables, of which the last one can be added to. -/
  | tables (before : List (List (String × Tree))) (last : List (String × Tree))

/-- The entries of a table. -/
abbrev Entries := List (String × Tree)

/-- The entries with what stands at a key changed. -/
def assign (key : String) (t : Tree) : Entries → Entries
  | [] => [(key, t)]
  | (k, v) :: rest => if k = key then (k, t) :: rest else (k, v) :: assign key t rest

/-- Put a value at a dotted key. Only tables that no header made can be added
to in this way, and the innermost one has to come from a dotted key itself. -/
def insertDotted (key : String) (v : Toml) : List String → Entries → Except Fault Entries
  | [], entries =>
    match entries.lookup key with
    | some _ => .error (.redefined key)
    | none => .ok (assign key (.value v) entries)
  | k :: path, entries =>
    match entries.lookup k with
    | none => return assign k (.table .dotted (← insertDotted key v path [])) entries
    | some (.table .dotted sub) =>
      return assign k (.table .dotted (← insertDotted key v path sub)) entries
    | some (.table .implied sub) =>
      if path = [] then .error (.redefined k)
      else return assign k (.table .implied (← insertDotted key v path sub)) entries
    | some _ => .error (.redefined k)

/-- Change the table that a header names; tables that are missing on the way
are implied. In an array of tables the last one is meant. -/
def atHeader (f : Entries → Except Fault Entries) : List String → Entries → Except Fault Entries
  | [], entries => f entries
  | k :: path, entries =>
    match entries.lookup k with
    | none => return assign k (.table .implied (← atHeader f path [])) entries
    | some (.table origin sub) =>
      return assign k (.table origin (← atHeader f path sub)) entries
    | some (.tables before last) =>
      return assign k (.tables before (← atHeader f path last)) entries
    | some (.value _) => .error (.redefined k)

/-- Open the table of a header: a new one, or one that was only implied. -/
def openTable (key : String) (entries : Entries) : Except Fault Entries :=
  match entries.lookup key with
  | none => .ok (assign key (.table .header []) entries)
  | some (.table .implied sub) => .ok (assign key (.table .header sub) entries)
  | some _ => .error (.redefined key)

/-- Open a new element of the array of tables of a header. -/
def openElement (key : String) (entries : Entries) : Except Fault Entries :=
  match entries.lookup key with
  | none => .ok (assign key (.tables [] []) entries)
  | some (.tables before last) => .ok (assign key (.tables (before ++ [last]) []) entries)
  | some _ => .error (.redefined key)

mutual

/-- The finished value. -/
def Tree.finish : Tree → Toml
  | .value v => v
  | .table _ entries => .table (finish entries)
  | .tables before last => .array (finishAll before ++ [.table (finish last)])

/-- The values of a finished table. -/
def finish : List (String × Tree) → List (String × Toml)
  | [] => []
  | (k, t) :: rest => (k, t.finish) :: finish rest

def finishAll : List (List (String × Tree)) → List Toml
  | [] => []
  | t :: rest => .table (finish t) :: finishAll rest

end

end Provision.Toml
