import Provision.Decimal
import Provision.Toml.Value

/-!
# TOML dates and times

A moment is a date, a time, or both with an offset perhaps; dates have to exist
in the calendar. It is kept as text in one form: with a `T` between date and
time, and with as few digits of a second as are exact to the nanosecond.

* `Toml.readMoment?`: a moment.
-/

namespace Provision.Toml

/-- What a reader found, as text, and the rest of what it read. -/
abbrev Found := Option (List Char × List Char)

/-- A number of exactly `n` digits between two bounds, its digits, and the rest
of the text. -/
def readField? (n low high : Nat) (s : List Char) : Option (Nat × List Char × List Char) :=
  let digits := s.take n
  let value := Decimal.ofDigits digits
  if digits.length = n ∧ digits.all Char.isDigit ∧ low ≤ value ∧ value ≤ high then
    some (value, digits, s.drop n)
  else none

/-- The rest of the text after a character that has to stand there. -/
def readMark? (c : Char) : List Char → Option (List Char)
  | x :: r => if x = c then some r else none
  | [] => none

/-- The number of days of a month. -/
def daysOf (year month : Nat) : Nat :=
  if month = 2 then
    if year % 4 = 0 ∧ (year % 100 ≠ 0 ∨ year % 400 = 0) then 29 else 28
  else if month = 4 ∨ month = 6 ∨ month = 9 ∨ month = 11 then 30
  else 31

/-- A date. -/
def readDate? (s : List Char) : Found := do
  let (year, y, r) ← readField? 4 0 9999 s
  let r ← readMark? '-' r
  let (month, m, r) ← readField? 2 1 12 r
  let r ← readMark? '-' r
  let (_, d, r) ← readField? 2 1 (daysOf year month) r
  some (y ++ '-' :: m ++ '-' :: d, r)

/-- The text of a fraction of a second: nine digits at most, and no zeros at the
end. -/
def fractionText (digits : List Char) : List Char :=
  match ((digits.take 9).reverse.dropWhile (· = '0')).reverse with
  | [] => []
  | d => '.' :: d

/-- A fraction of a second, when there is one. -/
def readSecondFraction? : List Char → Found
  | '.' :: r =>
    match r.takeWhile Char.isDigit with
    | [] => none
    | digits => some (fractionText digits, r.dropWhile Char.isDigit)
  | r => some ([], r)

/-- Hours and minutes. -/
def readClock? (s : List Char) : Found := do
  let (_, h, r) ← readField? 2 0 23 s
  let r ← readMark? ':' r
  let (_, m, r) ← readField? 2 0 59 r
  some (h ++ ':' :: m, r)

/-- A time. -/
def readTime? (s : List Char) : Found := do
  let (clock, r) ← readClock? s
  let r ← readMark? ':' r
  let (_, second, r) ← readField? 2 0 60 r
  let (fraction, r) ← readSecondFraction? r
  some (clock ++ ':' :: second ++ fraction, r)

/-- An offset, when there is one. None at all is written with a plus sign. -/
def readOffset? : List Char → Found
  | 'Z' :: r | 'z' :: r => some (['Z'], r)
  | '+' :: r => (readClock? r).map fun (clock, r) => ('+' :: clock, r)
  | '-' :: r => (readClock? r).map fun (clock, r) =>
    ((if clock = "00:00".toList then '+' else '-') :: clock, r)
  | r => some ([], r)

/-- A time and an offset that follow a date. Where none follows, nothing is
read. -/
def readTimeOfDay? (s : List Char) : Found :=
  match s with
  | c :: r =>
    if c = 'T' ∨ c = 't' ∨ c = ' ' then
      match readTime? r with
      | some (time, r) => (readOffset? r).map fun (offset, r) => ('T' :: time ++ offset, r)
      | none => some ([], s)
    else some ([], s)
  | [] => some ([], [])

/-- A date, and a time perhaps. -/
def readDateTime? (s : List Char) : Found := do
  let (date, r) ← readDate? s
  let (time, r) ← readTimeOfDay? r
  some (date ++ time, r)

/-- A moment, and the rest of the text. -/
def readMoment? (s : List Char) : Option (Toml × List Char) :=
  ((readDateTime? s).or (readTime? s)).map fun (text, r) => (.moment (.ofList text), r)

end Provision.Toml
