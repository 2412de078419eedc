/-!
# TOML values

A document is a table. Keys of a table are pairwise different; their order has
no meaning.

* `Toml.lookup?`: the value of a key, when the value is a table.
* `Toml.Fault`: why a text is not a document, or a value not what is asked for.
-/

namespace Provision

/-- A TOML value. Decimals are kept as they are written, moments in one form. -/
inductive Toml where
  | string (s : String)
  | int (n : Int)
  | decimal (literal : String)
  | bool (b : Bool)
  | moment (text : String)
  | array (items : List Toml)
  | table (entries : List (String × Toml))
deriving Inhabited

namespace Toml

/-- Why a text is not a TOML document, or a value not what is asked for. -/
inductive Fault where
  | malformed (left : Nat)
  | redefined (key : String)
  | tooDeep
  | missing (key : String)
  | unknownKey (key : String)
  | unknownVariant (name : String)
  | mismatch (expected : String)
deriving DecidableEq, Inhabited, Repr

/-- The fault in words. -/
def Fault.message : Fault → String
  | malformed left => "TOML parse error " ++ toString left ++ " characters before the end"
  | redefined key => "duplicate key '" ++ key ++ "'"
  | tooDeep => "recursion limit"
  | missing key => "missing field '" ++ key ++ "'"
  | unknownKey key => "unknown field '" ++ key ++ "'"
  | unknownVariant name => "unknown variant '" ++ name ++ "'"
  | mismatch expected => "invalid type: expected " ++ expected

/-- The fault at the start of a rest. -/
def fail {α : Type} (rest : List Char) : Except Fault α := .error (.malformed rest.length)

/-- The value of a key of a table. -/
def lookup? (key : String) : Toml → Option Toml
  | .table entries => entries.lookup key
  | _ => none

/-- The text of a string. -/
def text? : Toml → Option String
  | .string s => some s
  | _ => none

end Toml

end Provision
