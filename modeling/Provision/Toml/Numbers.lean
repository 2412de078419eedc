import Provision.Decimal
import Provision.Json.Reader
import Provision.Toml.Value

/-!
# TOML numbers

Whole numbers of 64 bits in four bases, and decimals. Single underscores may
stand between digits.

* `Toml.readInt?`: a whole number.
* `Toml.readDecimal?`: a decimal, infinity or no number.
-/

namespace Provision.Toml

/-- Digits after a digit, each perhaps after an underscore, and the rest of the
text. Nothing is read where an underscore has no digit after it. -/
def moreDigits? (isDigit : Char → Bool) : List Char → Option (List Char × List Char)
  | '_' :: c :: r =>
    if isDigit c then (moreDigits? isDigit r).map fun (d, r) => (c :: d, r) else none
  | ['_'] => none
  | c :: r =>
    if isDigit c then (moreDigits? isDigit r).map fun (d, r) => (c :: d, r) else some ([], c :: r)
  | [] => some ([], [])

/-- Digits, at least one, and the rest of the text. -/
def readDigits? (isDigit : Char → Bool) : List Char → Option (List Char × List Char)
  | c :: r =>
    if isDigit c then (moreDigits? isDigit r).map fun (d, r) => (c :: d, r) else none
  | [] => none

/-- A sign, and the rest of the text. -/
def readSign : List Char → Bool × List Char
  | '-' :: r => (true, r)
  | '+' :: r => (false, r)
  | r => (false, r)

/-- Digits without a zero before others. -/
def readWhole? : List Char → Option (List Char × List Char)
  | '0' :: r => some (['0'], r)
  | r => readDigits? Char.isDigit r

/-- The number that digits of some base spell. -/
def ofBase (base : Nat) (digits : List Char) : Nat :=
  digits.foldl (fun n c => base * n + (Json.hexValue? c).getD 0) 0

/-- A whole number of 64 bits. -/
def ofWhole? (negative : Bool) (n : Nat) : Option Toml :=
  if negative then (if n ≤ 1 <<< 63 then some (.int (-n)) else none)
  else if n < 1 <<< 63 then some (.int n) else none

/-- A whole number after the letter of its base, and the rest of the text. -/
def readBased? (base : Nat) (r : List Char) : Option (Toml × List Char) := do
  let isDigit c := (Json.hexValue? c).any (· < base)
  let (d, r) ← readDigits? isDigit r
  (ofWhole? false (ofBase base d)).map (·, r)

/-- A whole number, and the rest of the text. -/
def readInt? : List Char → Option (Toml × List Char)
  | '0' :: 'x' :: r => readBased? 16 r
  | '0' :: 'o' :: r => readBased? 8 r
  | '0' :: 'b' :: r => readBased? 2 r
  | s => do
    let (negative, r) := readSign s
    let (d, r) ← readWhole? r
    (ofWhole? negative (Decimal.ofDigits d)).map (·, r)

/-- The exponent of a decimal after its mark. -/
def readExponent? (r : List Char) : Option (Int × List Char) := do
  let (negative, r) := readSign r
  let (d, r) ← readDigits? Char.isDigit r
  some (if negative then -Decimal.ofDigits d else Decimal.ofDigits d, r)

/-- The exponent of a decimal, when there is one. -/
def readOptionalExponent? : List Char → Option (Int × List Char)
  | 'e' :: r | 'E' :: r => readExponent? r
  | r => some (0, r)

/-- The fraction and exponent of a decimal; one of them has to be there. -/
def readScale? : List Char → Option (List Char × Int × List Char)
  | '.' :: r => do
    let (d, r) ← readDigits? Char.isDigit r
    let (e, r) ← readOptionalExponent? r
    some (d, e, r)
  | 'e' :: r | 'E' :: r => (readExponent? r).map fun (e, r) => ([], e, r)
  | _ => none

/-- Infinity, or what is no number. -/
def readSpecial? (s : List Char) : Option (Toml × List Char) :=
  match (readSign s).2 with
  | 'i' :: 'n' :: 'f' :: r | 'n' :: 'a' :: 'n' :: r =>
    some (.decimal (.ofList (s.take (s.length - r.length))), r)
  | _ => none

/-- A decimal, and the rest of the text. One that is too large for a double
has no value, unless it is negative. -/
def readDecimal? (s : List Char) : Option (Toml × List Char) :=
  (readSpecial? s).or do
    let (negative, r) := readSign s
    let (whole, r) ← readWhole? r
    let (fraction, e, r) ← readScale? r
    if !negative ∧ Decimal.exceedsDouble (Decimal.ofDigits (whole ++ fraction))
        (e - fraction.length) then none
    else some (.decimal (.ofList (s.take (s.length - r.length))), r)

end Provision.Toml
