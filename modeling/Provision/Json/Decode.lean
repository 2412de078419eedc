import Provision.Json.Reader

/-!
# From JSON to typed values

The rules by which a typed value is taken from JSON: a record is an object
whose other members are skipped, or an array of its fields in order; a field
may not be given twice; a choice is named by a string, by a one-member object,
or by a tag beside the fields of the choice.

A value is *buffered* when it was read before it was known what it is; then all
of it has to be readable.

* `Json.record`: the fields of a record.
* `Json.required`, `optional`, `withDefault`: one field.
* `Json.choice`, `tagged`, `tagName`: choices.
-/

namespace Provision.Json

/-- A string. -/
def asString : Json → Except Fault String
  | .string s => .ok s
  | _ => .error (.mismatch "a string")

/-- A truth value. -/
def asBool : Json → Except Fault Bool
  | .bool b => .ok b
  | _ => .error (.mismatch "a boolean")

/-- A whole number below a bound. -/
def asNatBelow (bound : Nat) : Json → Except Fault Nat
  | .int (.ofNat n) => if n < bound then .ok n else .error (.mismatch "a smaller number")
  | _ => .error (.mismatch "a whole number")

/-- An array, element by element. -/
def asList {α : Type} (item : Json → Except Fault α) : Json → Except Fault (List α)
  | .array items => items.mapM item
  | _ => .error (.mismatch "an array")

/-- The first key that occurs again later. -/
def repeatedKey? : List (String × Json) → Option String
  | [] => none
  | (k, _) :: rest => if rest.any (·.1 = k) then some k else repeatedKey? rest

/-- The fields with these names, each given at most once. -/
def record (names : List String) : Json → Except Fault (List (String × Json))
  | .object members =>
    let known := members.filter (names.contains ·.1)
    match repeatedKey? known with
    | some k => .error (.repeated k)
    | none => .ok known
  | .array items =>
    if items.length ≤ names.length then .ok (names.zip items)
    else .error (.mismatch "fewer elements")
  | _ => .error (.mismatch "an object")

/-- A field that has to be there. -/
def required {α : Type} (name : String) (decode : Json → Except Fault α)
    (fields : List (String × Json)) : Except Fault α :=
  match fields.lookup name with
  | some j => decode j
  | none => .error (.missing name)

/-- A field that may be absent or `null`. -/
def optional {α : Type} (name : String) (decode : Json → Except Fault α)
    (fields : List (String × Json)) : Except Fault (Option α) :=
  match fields.lookup name with
  | none | some .null => .ok none
  | some j => some <$> decode j

/-- A field that may be absent. -/
def withDefault {α : Type} (name : String) (default : α) (decode : Json → Except Fault α)
    (fields : List (String × Json)) : Except Fault α :=
  match fields.lookup name with
  | none => .ok default
  | some j => decode j

/-- The choice of a name. -/
def named {α : Type} (choices : List (String × α)) (name : String) : Except Fault α :=
  match choices.lookup name with
  | some a => .ok a
  | none => .error (.unknownVariant name)

/-- A choice without fields, as its name or as an object with its name and
nothing. In a buffered value an empty object is nothing, too. -/
def choice {α : Type} (buffered : Bool) (choices : List (String × α)) :
    Json → Except Fault α
  | .string name => named choices name
  | .object [(name, .null)] => named choices name
  | .object [(name, .object [])] =>
    if buffered then named choices name else .error (.mismatch "null")
  | _ => .error (.mismatch "a string")

/-- The choice that a tag names. In a buffered value the tag may be the number
of the choice. -/
def tagName {α : Type} (buffered : Bool) (choices : List (String × α)) : Json → Except Fault α
  | .string name => named choices name
  | .int (.ofNat n) =>
    match buffered, choices[n]? with
    | true, some (_, a) => .ok a
    | _, _ => .error (.mismatch "a string")
  | _ => .error (.mismatch "a string")

/-- A tag and what stands beside it, which is buffered. -/
def tagged (tag : String) (j : Json) : Except Fault (Json × Json) := do
  let (name, rest) ←
    match j with
    | .object members =>
      match members.filter (·.1 = tag) with
      | [(_, name)] => .ok (name, Json.object (members.filter (·.1 ≠ tag)))
      | [] => .error (.missing tag)
      | _ => .error (.repeated tag)
    | .array (name :: rest) => .ok (name, .array rest)
    | _ => .error (Fault.mismatch "an object")
  if rest.isReadable then .ok (name, rest) else .error (.mismatch "a value")

end Provision.Json
