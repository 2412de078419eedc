import Provision.Digest
import Provision.Instant
import Provision.Text.Blank

/-!
# Names of runs

A run is named after the moment it was created and a fingerprint of what it was
created for: 17 digits, a dash and 8 hexadecimal digits.

* `RunId.isValid`: whether a text has the form of such a name.
* `RunId.make`: the name for a moment and a fingerprint.
* `isValid_make`: every name that is made has the form.
-/

namespace Provision.RunId

open Text

/-- The form of a name: 17 digits, a dash, 8 lower-case hexadecimal digits. -/
def isValid (s : String) : Bool :=
  match splitOnce '-' s.toList with
  | some (stamp, tag) =>
    stamp.length == 17 && stamp.all Char.isDigit && tag.length == 8 && tag.all isHexDigit
  | none => false

/-- The name for a moment and the four bytes of a fingerprint. -/
def make (created : Instant) (a b c d : UInt8) : String :=
  .ofList (created.stamp ++ '-' :: (hex a ++ hex b ++ hex c ++ hex d))

/-- What the fingerprint of a run is taken of. -/
def seed (created : Instant) (process : Nat) (plan : List String) : String :=
  created.rfc3339 ++ ":" ++ toString process ++ ":" ++ ",".intercalate plan

/-- The name of the run that a process creates at a moment for a plan. -/
def fresh (created : Instant) (process : Nat) (plan : List String) : String :=
  let digest := Digest.blake3 (seed created process plan).toUTF8.toList
  make created (digest.getD 0 0) (digest.getD 1 0) (digest.getD 2 0) (digest.getD 3 0)

theorem isDigit_of_mem_stamp {t : Instant} {c : Char} (h : c ∈ t.stamp) : c.isDigit = true := by
  simp only [Instant.stamp, List.mem_append] at h
  rcases h with (((((h | h) | h) | h) | h) | h) | h <;> exact isDigit_of_mem_fixed h

/-- **Every name that is made has the form.** -/
theorem isValid_make (created : Instant) (a b c d : UInt8) :
    isValid (make created a b c d) = true := by
  have hdash : '-' ∉ created.stamp := fun h => absurd (isDigit_of_mem_stamp h) (by decide)
  have hlen : (hex a ++ hex b ++ hex c ++ hex d).length = 8 := by simp [hex]
  have hstamp : created.stamp.all Char.isDigit = true :=
    List.all_eq_true.2 fun _ h => isDigit_of_mem_stamp h
  have htag : (hex a ++ hex b ++ hex c ++ hex d).all isHexDigit = true := by
    refine List.all_eq_true.2 fun x h => ?_
    simp only [List.mem_append] at h
    rcases h with ((h | h) | h) | h <;> exact isHexDigit_of_mem_hex h
  simp only [isValid, make, String.toList_ofList, splitOnce_eq_some.2 ⟨hdash, rfl⟩, hlen, hstamp, htag,
    Instant.length_stamp, beq_self_eq_true, Bool.and_self]

end Provision.RunId
