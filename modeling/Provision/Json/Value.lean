/-!
# JSON values

Objects keep their members in the order of the text, repeated keys included:
which of them count is for the reader of the value to say.

* `Json.isReadable`: nothing in the value is unreadable.
* `Json.sorted`: the value with the members of every object in the order of
  their keys, of repeated keys the last.
-/

namespace Provision

/-- A JSON value. `unreadable` stands for what is well formed, so that it can
be skipped, but has no value: a string with a lone surrogate, a number too
large, a value nested too deeply. -/
inductive Json where
  | null
  | bool (b : Bool)
  | int (n : Int)
  | decimal (literal : String)
  | string (s : String)
  | array (items : List Json)
  | object (members : List (String × Json))
  | unreadable
deriving Inhabited

namespace Json

mutual

/-- Nothing in the value is unreadable. -/
def isReadable : Json → Bool
  | .array items => areReadable items
  | .object members => membersReadable members
  | .unreadable => false
  | _ => true

def areReadable : List Json → Bool
  | [] => true
  | j :: rest => j.isReadable && areReadable rest

def membersReadable : List (String × Json) → Bool
  | [] => true
  | (_, j) :: rest => j.isReadable && membersReadable rest

end

/-- A member put into members that are in the order of their keys. -/
def insertMember (key : String) (value : Json) :
    List (String × Json) → List (String × Json)
  | [] => [(key, value)]
  | (k, v) :: rest =>
    if key < k then (key, value) :: (k, v) :: rest
    else if key = k then (k, value) :: rest
    else (k, v) :: insertMember key value rest

mutual

/-- The value with the members of every object in the order of their keys. -/
def sorted : Json → Json
  | .array items => .array (sortedItems items)
  | .object members => .object (sortedMembers members [])
  | j => j

def sortedItems : List Json → List Json
  | [] => []
  | j :: rest => j.sorted :: sortedItems rest

/-- The members put, one after the other, into members in order. -/
def sortedMembers : List (String × Json) → List (String × Json) → List (String × Json)
  | [], done => done
  | (k, v) :: rest, done => sortedMembers rest (insertMember k v.sorted done)

end

/-- An array of strings. -/
def strings (items : List String) : Json := .array (items.map .string)

/-- A value that may be absent, as `null`. -/
def orNull : Option Json → Json
  | some j => j
  | none => .null

/-- A member that is left out when its value is absent. -/
def member? (key : String) (value : Option Json) : List (String × Json) :=
  match value with
  | some j => [(key, j)]
  | none => []

end Json

end Provision
