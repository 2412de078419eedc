import Provision.RunId

/-!
# Names of runs, byte by byte

The form of a name, told from the bytes of a text and not from its characters: what stands before and
after the first dash.

* `RunId.isValidBytes`: whether some bytes are those of the name of a run.
-/

namespace Provision.RunId

/-- The byte of a dash. -/
def dashByte : UInt8 := 0x2D

/-- The byte of a decimal digit. -/
def isDigitByte (b : UInt8) : Bool := 0x30 ≤ b && b ≤ 0x39

/-- The byte of a decimal digit or of a lower-case letter up to `f`. -/
def isHexByte (b : UInt8) : Bool := isDigitByte b || (0x61 ≤ b && b ≤ 0x66)

/-- Whether some bytes are those of the name of a run. -/
def isValidBytes (bytes : List UInt8) : Bool :=
  match bytes.span (· != dashByte) with
  | (stamp, _ :: tag) =>
    stamp.length == 17 && stamp.all isDigitByte && tag.length == 8 && tag.all isHexByte
  | (_, []) => false

end Provision.RunId
