import Provision.Duration

/-!
# Durations in machine words

A duration in two words: whole seconds in 64 bits, and the nanoseconds of less than one more in 32.
A number that does not fit into its word is no result at all, so that whatever comes out was
calculated exactly.

* `word32?`, `word64?`: a number in a word, if it fits.
* `Words.new`, `Words.ofMillis`: the duration of some seconds and nanoseconds, or of some
  milliseconds.
* `Words.times`, `Words.shorter`: a multiple, at most the longest duration, and the shorter of two.
* `Words.duration`: the length of time that the words stand for.
-/

namespace Provision

/-- A number in 32 bits, if it fits. -/
def word32? (n : Nat) : Option UInt32 := if h : n < UInt32.size then some (.ofNatLT n h) else none

/-- A number in 64 bits, if it fits. -/
def word64? (n : Nat) : Option UInt64 := if h : n < UInt64.size then some (.ofNatLT n h) else none

namespace Duration

/-- A length of time in two words. -/
structure Words where
  secs : UInt64
  nanos : UInt32
  nanos_lt : nanos.toNat < 1000000000
deriving DecidableEq, Repr

namespace Words

/-- The length of time that the words stand for. -/
def duration (d : Words) : Duration := ⟨d.secs.toNat * 1000000000 + d.nanos.toNat⟩

/-- The longest duration. -/
def longest : Words := ⟨.ofNat (UInt64.size - 1), 999999999, by decide⟩

/-- So many seconds and nanoseconds. A second or more of nanoseconds is carried. -/
def new (secs : UInt64) (nanos : UInt32) : Option Words :=
  if h : nanos.toNat < 1000000000 then some ⟨secs, nanos, h⟩
  else do
    let secs ← word64? (secs.toNat + nanos.toNat / 1000000000)
    return ⟨secs, nanos % 1000000000, Nat.mod_lt _ (by decide)⟩

/-- So many milliseconds. -/
def ofMillis (millis : UInt64) : Option Words := do
  let rest ← word32? (millis % 1000).toNat
  let nanos ← word32? (rest.toNat * 1000000)
  new (millis / 1000) nanos

/-- A multiple of a duration, at most the longest one. -/
def times (d : Words) (n : UInt32) : Option Words := do
  let total ← word64? (d.nanos.toNat * n.toNat)
  let nanos ← word32? (total % 1000000000).toNat
  let secs? := do
    let secs ← word64? (d.secs.toNat * n.toNat)
    word64? (secs.toNat + (total / 1000000000).toNat)
  -- seconds that do not fit are not lost: no duration is longer
  match secs? with
  | some secs => new secs nanos
  | none => return longest

/-- The shorter of two durations. -/
def shorter (a b : Words) : Words :=
  if b.secs < a.secs ∨ b.secs = a.secs ∧ b.nanos < a.nanos then b else a

end Words

end Duration

end Provision
