/-!
# Decimal numbers and doubles

A decimal numeral is a whole number times a power of ten. Formats that store
numbers as doubles refuse a numeral that is too large for one.

* `exceedsDouble`: whether a numeral rounds to infinity.
-/

namespace Provision.Decimal

/-- The value of a digit. -/
def digit (c : Char) : Nat := c.toNat - '0'.toNat

/-- The number that decimal digits spell. -/
def ofDigits (s : List Char) : Nat := s.foldl (fun n c => 10 * n + digit c) 0

/-- The least number that rounds to infinity: half a unit above the largest
double, since a tie goes to the even neighbour. -/
def overflowBound : Nat := (1 <<< 1024) - (1 <<< 970)

/-- Whether `m * 10 ^ e` rounds to infinity. The bound has 309 digits, so only
numerals of about that many digits before the point are compared exactly. -/
def exceedsDouble (m : Nat) (e : Int) : Bool :=
  if m = 0 then false
  else
    let size := ((Nat.toDigits 10 m).length : Int) + e
    if size > 310 then true
    else if size < 300 then false
    else if 0 ≤ e then overflowBound ≤ m * Nat.pow 10 e.toNat
    else overflowBound * Nat.pow 10 (-e).toNat ≤ m

end Provision.Decimal
