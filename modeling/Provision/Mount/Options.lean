import Provision.Decimal
import Provision.Text.Blank

/-!
# Mount options

A kernel does not show options as they were requested: it leaves out those that
only steer mount(8), and shows sizes in a unit of its own choice.

* `Mount.isUserspace`: options the kernel never shows.
* `Mount.sizeBytes?`: the size an option value stands for.
* `Mount.optionMatches`: whether an observed option is the requested one.
-/

namespace Provision.Mount

open Text

/-- Options that only steer mount(8) or the processing of fstab. -/
def userspaceOptions : List String :=
  ["defaults", "auto", "noauto", "nofail", "_netdev", "user", "nouser", "users", "owner", "group",
    "bg", "fg"]

/-- An option that the kernel never shows. -/
def isUserspace (option : String) : Bool :=
  userspaceOptions.contains option || "x-".toList.isPrefixOf option.toList ||
    "comment=".toList.isPrefixOf option.toList

/-- The power of two that a unit of size stands for. -/
def unitShift? : List Char → Option Nat
  | [] => some 0
  | ['k'] | ['K'] => some 10
  | ['m'] | ['M'] => some 20
  | ['g'] | ['G'] => some 30
  | ['t'] | ['T'] => some 40
  | _ => none

/-- The bytes that a size such as `512m` stands for: a decimal count and a unit,
neither the count nor the size above 64 bits. -/
def sizeBytes? (value : List Char) : Option Nat :=
  let digits := value.takeWhile Char.isDigit
  let count := Decimal.ofDigits digits
  if digits = [] ∨ UInt64.size ≤ count then none
  else
    (unitShift? (value.dropWhile Char.isDigit)).bind fun shift =>
      let bytes := count <<< shift
      if bytes < UInt64.size then some bytes else none

/-- The same size, written in whatever unit. -/
def sameSize (a b : List Char) : Bool :=
  match sizeBytes? a, sizeBytes? b with
  | some m, some n => m == n
  | _, _ => false

/-- Whether an observed option is the requested one: the same text, or the same
key with the same size. A percentage is requested of something the kernel knows,
so only its key counts. -/
def optionMatches (observed requested : String) : Bool :=
  observed == requested ||
    match splitOnce '=' observed.toList, splitOnce '=' requested.toList with
    | some (key, shown), some (wanted, want) =>
      key == wanted && (want.getLast? == some '%' || sameSize shown want)
    | _, _ => false

end Provision.Mount
