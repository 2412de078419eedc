/-!
# Numbers of a fixed width

* `fixed`: the last `width` decimal digits of a number.
* `length_fixed`, `isDigit_of_mem_fixed`: exactly that many characters, all of
  them digits.
* `hex`: the hexadecimal digits of a byte.
-/

namespace Provision.Text

/-- The last `width` decimal digits of a number, with zeros in front. -/
def fixed : Nat → Nat → List Char
  | 0, _ => []
  | width + 1, n => fixed width (n / 10) ++ [Nat.digitChar (n % 10)]

@[simp] theorem length_fixed (width n : Nat) : (fixed width n).length = width := by
  induction width generalizing n with
  | zero => rfl
  | succ width ih => simp [fixed, ih]

theorem isDigit_digitChar {n : Nat} (h : n < 10) : (Nat.digitChar n).isDigit = true := by
  have table : ∀ k : Fin 10, (Nat.digitChar k).isDigit = true := by decide
  exact table ⟨n, h⟩

theorem isDigit_of_mem_fixed {width n : Nat} {c : Char} (h : c ∈ fixed width n) :
    c.isDigit = true := by
  induction width generalizing n with
  | zero => simp [fixed] at h
  | succ width ih =>
    rcases List.mem_append.1 h with h | h
    · exact ih h
    · rw [List.mem_singleton.1 h]; exact isDigit_digitChar (Nat.mod_lt _ (by decide))

/-- A digit or a lower-case letter up to `f`. -/
def isHexDigit (c : Char) : Bool := c.isDigit || ('a' ≤ c && c ≤ 'f')

/-- The two hexadecimal digits of a byte. -/
def hex (b : UInt8) : List Char :=
  [Nat.digitChar (b.toNat / 16), Nat.digitChar (b.toNat % 16)]

theorem isHexDigit_digitChar {n : Nat} (h : n < 16) : isHexDigit (Nat.digitChar n) = true := by
  have table : ∀ k : Fin 16, isHexDigit (Nat.digitChar k) = true := by decide
  exact table ⟨n, h⟩

theorem isHexDigit_of_mem_hex {b : UInt8} {c : Char} (h : c ∈ hex b) : isHexDigit c = true := by
  have hb : b.toNat < 256 := b.toNat_lt
  simp only [hex, List.mem_cons, List.not_mem_nil, or_false] at h
  rcases h with rfl | rfl <;> exact isHexDigit_digitChar (by omega)

end Provision.Text
