import Provision.Text.Digits

/-!
# Instants

A moment of universal time, as calendar and clock show it.

* `Instant.rfc3339`: the instant as text. The fraction of a second has 3, 6 or
  9 digits, the fewest that are exact, and is left out when it is zero.
* `Instant.stamp`: the instant to the millisecond, as 17 digits.
* `Instant.ofEpoch`: the instant so many seconds after the start of 1970.
-/

namespace Provision

/-- A moment of universal time between the years 0 and 9999. -/
structure Instant where
  year : Fin 10000
  month : Fin 13
  day : Fin 32
  hour : Fin 24
  minute : Fin 60
  /-- 60 in a leap second. -/
  second : Fin 61
  nano : Fin 1000000000
deriving DecidableEq, Inhabited, Repr

namespace Instant

open Text

/-- The fraction of a second, with its point. -/
def fraction (t : Instant) : List Char :=
  let n := t.nano.val
  if n = 0 then []
  else if n % 1000000 = 0 then '.' :: fixed 3 (n / 1000000)
  else if n % 1000 = 0 then '.' :: fixed 6 (n / 1000)
  else '.' :: fixed 9 n

/-- The instant to the second, without its zone. -/
def seconds (t : Instant) : List Char :=
  fixed 4 t.year ++ '-' :: fixed 2 t.month ++ '-' :: fixed 2 t.day ++ 'T' :: fixed 2 t.hour ++
    ':' :: fixed 2 t.minute ++ ':' :: fixed 2 t.second

/-- The instant as text, such as `2001-02-03T04:05:06.700+00:00`. -/
def rfc3339 (t : Instant) : String :=
  .ofList (t.seconds ++ t.fraction ++ "+00:00".toList)

/-- The instant to the millisecond, as digits only. -/
def stamp (t : Instant) : List Char :=
  fixed 4 t.year ++ fixed 2 t.month ++ fixed 2 t.day ++ fixed 2 t.hour ++ fixed 2 t.minute ++
    fixed 2 t.second ++ fixed 3 (t.nano / 1000000)

@[simp] theorem length_stamp (t : Instant) : t.stamp.length = 17 := by
  simp [stamp]

/-- Year, month and day of the day so many days after the start of 1970. Years
are counted from March, so that the day a leap year adds is the last. -/
def calendar (days : Nat) : Nat × Nat × Nat :=
  let z := days + 719468
  let era := z / 146097
  let dayOfEra := z % 146097
  let yearOfEra := (dayOfEra - dayOfEra / 1460 + dayOfEra / 36524 - dayOfEra / 146096) / 365
  let dayOfYear := dayOfEra - (365 * yearOfEra + yearOfEra / 4 - yearOfEra / 100)
  let monthFromMarch := (5 * dayOfYear + 2) / 153
  let day := dayOfYear - (153 * monthFromMarch + 2) / 5 + 1
  let month := if monthFromMarch < 10 then monthFromMarch + 3 else monthFromMarch - 9
  (yearOfEra + era * 400 + (if month ≤ 2 then 1 else 0), month, day)

/-- The instant so many seconds and nanoseconds after the start of 1970. -/
def ofEpoch (seconds nanos : Nat) : Instant :=
  let (year, month, day) := calendar (seconds / 86400)
  { year := .ofNat 10000 year
    month := .ofNat 13 month
    day := .ofNat 32 day
    hour := .ofNat 24 (seconds / 3600 % 24)
    minute := .ofNat 60 (seconds / 60 % 60)
    second := .ofNat 61 (seconds % 60)
    nano := .ofNat 1000000000 nanos }

end Instant

end Provision
