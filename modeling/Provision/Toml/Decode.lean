import Provision.Toml.Value

/-!
# From TOML to typed values

The rules by which a typed value is taken from TOML: a whole number has to fit
its type, a choice is named by a string or by a table with that one key, and a
record may have to have no other keys.

* `Toml.asText`: a text, which may be written as a moment.
* `Toml.asName`, `asChoice`: a choice.
* `Toml.required`, `optional`, `withDefault`: one field.
* `Toml.closed`: no other keys.
-/

namespace Provision.Toml

/-- A string. -/
def asString : Toml → Except Fault String
  | .string s => .ok s
  | _ => .error (.mismatch "a string")

/-- A string, or a moment as its text. -/
def asText : Toml → Except Fault String
  | .string s | .moment s => .ok s
  | _ => .error (.mismatch "a string")

/-- A truth value. -/
def asBool : Toml → Except Fault Bool
  | .bool b => .ok b
  | _ => .error (.mismatch "a boolean")

/-- A whole number below a bound. -/
def asNatBelow (bound : Nat) : Toml → Except Fault Nat
  | .int (.ofNat n) => if n < bound then .ok n else .error (.mismatch "a smaller number")
  | _ => .error (.mismatch "a whole number")

/-- An array, element by element. -/
def asList {α : Type} (item : Toml → Except Fault α) : Toml → Except Fault (List α)
  | .array items => items.mapM item
  | _ => .error (.mismatch "an array")

/-- A table. -/
def asTable : Toml → Except Fault (List (String × Toml))
  | .table entries => .ok entries
  | _ => .error (.mismatch "a table")

/-- The choice of a name. -/
def named {α : Type} (choices : List (String × α)) (name : String) : Except Fault α :=
  match choices.lookup name with
  | some a => .ok a
  | none => .error (.unknownVariant name)

/-- The choice of a name, given as a string. -/
def asName {α : Type} (choices : List (String × α)) : Toml → Except Fault α
  | .string name => named choices name
  | _ => .error (.mismatch "a string")

/-- The choice of a name, given as a string or as the only key of a table. -/
def asChoice {α : Type} (choices : List (String × α)) : Toml → Except Fault α
  | .table [(name, .table [])] => named choices name
  | v => asName choices v

/-- A field that has to be there. -/
def required {α : Type} (key : String) (decode : Toml → Except Fault α)
    (entries : List (String × Toml)) : Except Fault α :=
  match entries.lookup key with
  | some v => decode v
  | none => .error (.missing key)

/-- A field that may be absent. -/
def optional {α : Type} (key : String) (decode : Toml → Except Fault α)
    (entries : List (String × Toml)) : Except Fault (Option α) :=
  match entries.lookup key with
  | some v => some <$> decode v
  | none => .ok none

/-- A field with a value for when it is absent. -/
def withDefault {α : Type} (key : String) (default : α) (decode : Toml → Except Fault α)
    (entries : List (String × Toml)) : Except Fault α :=
  match entries.lookup key with
  | some v => decode v
  | none => .ok default

/-- That there are no keys but these. -/
def closed (keys : List String) (entries : List (String × Toml)) : Except Fault Unit :=
  match entries.find? fun (k, _) => !keys.contains k with
  | some (k, _) => .error (.unknownKey k)
  | none => .ok ()

/-- The fields of a record with these keys and no other. An array gives them in
order; what it holds beyond them is not looked at. -/
def record (keys : List String) : Toml → Except Fault (List (String × Toml))
  | .table entries => do
    closed keys entries
    .ok entries
  | .array items => .ok (keys.zip items)
  | _ => .error (.mismatch "a table")

end Provision.Toml
