/-!
# Durations

Lengths of time in nanoseconds, up to the longest one that 64 bits of seconds
can hold.

* `Duration.times`: a multiple, at most the longest duration.
* `millis_ofMillis`: whole milliseconds are kept exactly.
-/

namespace Provision

/-- A length of time in nanoseconds. -/
structure Duration where
  nanos : Nat
deriving DecidableEq, Inhabited, Repr

namespace Duration

/-- No time at all. -/
def zero : Duration := ⟨0⟩

/-- The longest duration: all seconds of 64 bits, and almost one more. -/
def longest : Duration := ⟨(UInt64.size - 1) * 1000000000 + 999999999⟩

/-- So many milliseconds. -/
def ofMillis (n : Nat) : Duration := ⟨n * 1000000⟩

/-- The whole milliseconds of a duration. -/
def millis (d : Duration) : Nat := d.nanos / 1000000

/-- The shorter of two durations. -/
def shorter (a b : Duration) : Duration := ⟨min a.nanos b.nanos⟩

/-- A multiple of a duration, at most the longest one. -/
def times (d : Duration) (n : Nat) : Duration := shorter ⟨d.nanos * n⟩ longest

@[simp] theorem millis_ofMillis (n : Nat) : (ofMillis n).millis = n := by
  simp [millis, ofMillis]

end Duration

end Provision
