/-!
# UTF-8 with replacement

Bytes are natural numbers below 256. Writing is exact; reading puts U+FFFD in
place of every maximal run of bytes that starts a character but does not finish
one, and of every byte that starts none.

* `decode_encodeChar`: reading a written character gives it back, whatever
  follows.
* `decode_encode`: reading a written text gives it back.
-/

namespace Provision.Text.Utf8

/-- What stands for bytes that spell no character. -/
def replacement : Char := '\uFFFD'

/-- The bytes of one character. -/
def encodeChar (c : Char) : List Nat :=
  let n := c.toNat
  if n < 0x80 then [n]
  else if n < 0x800 then [0xC0 + n / 0x40, 0x80 + n % 0x40]
  else if n < 0x10000 then [0xE0 + n / 0x1000, 0x80 + n / 0x40 % 0x40, 0x80 + n % 0x40]
  else [0xF0 + n / 0x40000, 0x80 + n / 0x1000 % 0x40, 0x80 + n / 0x40 % 0x40, 0x80 + n % 0x40]

/-- The bytes of a text. -/
def encode (s : List Char) : List Nat := s.flatMap encodeChar

/-- A byte that goes on with a character. -/
def isTail (b : Nat) : Bool := 0x80 ≤ b && b ≤ 0xBF

/-- A second byte that may follow the first byte `a` of a longer character: no
overlong form, no surrogate, nothing above U+10FFFF. -/
def isSecond (a b : Nat) : Bool :=
  isTail b && (a != 0xE0 || 0xA0 ≤ b) && (a != 0xED || b ≤ 0x9F) &&
    (a != 0xF0 || 0x90 ≤ b) && (a != 0xF4 || b ≤ 0x8F)

/-- The character that the byte `a` starts, and how many of the bytes after it
belong to it. -/
def lead (a : Nat) (r : List Nat) : Char × Nat :=
  if a < 0x80 then (.ofNat a, 0)
  else if 0xC2 ≤ a ∧ a ≤ 0xDF then
    match r with
    | b :: _ => if isTail b then (.ofNat ((a - 0xC0) * 0x40 + (b - 0x80)), 1) else (replacement, 0)
    | [] => (replacement, 0)
  else if 0xE0 ≤ a ∧ a ≤ 0xEF then
    match r with
    | b :: r =>
      if isSecond a b then
        match r with
        | c :: _ =>
          if isTail c then
            (.ofNat ((a - 0xE0) * 0x1000 + (b - 0x80) * 0x40 + (c - 0x80)), 2)
          else (replacement, 1)
        | [] => (replacement, 1)
      else (replacement, 0)
    | [] => (replacement, 0)
  else if 0xF0 ≤ a ∧ a ≤ 0xF4 then
    match r with
    | b :: r =>
      if isSecond a b then
        match r with
        | c :: r =>
          if isTail c then
            match r with
            | d :: _ =>
              if isTail d then
                (.ofNat ((a - 0xF0) * 0x40000 + (b - 0x80) * 0x1000 + (c - 0x80) * 0x40 +
                  (d - 0x80)), 3)
              else (replacement, 2)
            | [] => (replacement, 2)
          else (replacement, 1)
        | [] => (replacement, 1)
      else (replacement, 0)
    | [] => (replacement, 0)
  else (replacement, 0)

/-- The text of some bytes after the first `k` of them. -/
def decodeAfter : Nat → List Nat → List Char
  | _, [] => []
  | k + 1, _ :: r => decodeAfter k r
  | 0, a :: r => (lead a r).1 :: decodeAfter (lead a r).2 r

/-- The text of some bytes, with the replacement character for what spells
none. -/
def decode : List Nat → List Char := decodeAfter 0

theorem decodeAfter_append (s r : List Nat) : decodeAfter s.length (s ++ r) = decode r := by
  induction s with
  | nil => rfl
  | cons a s ih => exact ih

theorem lead_encodeChar (c : Char) (r : List Nat) :
    ∃ a s, encodeChar c = a :: s ∧ lead a (s ++ r) = (c, s.length) := by
  have hv : c.toNat < 0xD800 ∨ 0xDFFF < c.toNat ∧ c.toNat < 0x110000 := c.valid
  have hc : Char.ofNat c.toNat = c := Char.ofNat_toNat c
  generalize hn : c.toNat = n at hv hc
  simp only [encodeChar, hn]
  split
  · exact ⟨_, _, rfl, by simp [lead, *]⟩
  split
  · refine ⟨_, _, rfl, ?_⟩
    have h1 : ¬ (0xC0 + n / 0x40 < 0x80) := by omega
    have h2 : 0xC2 ≤ 0xC0 + n / 0x40 ∧ 0xC0 + n / 0x40 ≤ 0xDF := by omega
    have h3 : isTail (0x80 + n % 0x40) = true := by simp [isTail]; omega
    have h4 : (0xC0 + n / 0x40 - 0xC0) * 0x40 + (0x80 + n % 0x40 - 0x80) = n := by omega
    simp only [lead, List.cons_append, List.nil_append, if_neg h1, if_pos h2, h3, if_true, h4, hc,
      List.length_cons, List.length_nil]
  split
  · refine ⟨_, _, rfl, ?_⟩
    have h1 : ¬ (0xE0 + n / 0x1000 < 0x80) := by omega
    have h2 : ¬ (0xC2 ≤ 0xE0 + n / 0x1000 ∧ 0xE0 + n / 0x1000 ≤ 0xDF) := by omega
    have h3 : 0xE0 ≤ 0xE0 + n / 0x1000 ∧ 0xE0 + n / 0x1000 ≤ 0xEF := by omega
    have h4 : isSecond (0xE0 + n / 0x1000) (0x80 + n / 0x40 % 0x40) = true := by
      simp [isSecond, isTail]; omega
    have h5 : isTail (0x80 + n % 0x40) = true := by simp [isTail]; omega
    have h6 : (0xE0 + n / 0x1000 - 0xE0) * 0x1000 + (0x80 + n / 0x40 % 0x40 - 0x80) * 0x40 +
        (0x80 + n % 0x40 - 0x80) = n := by omega
    simp only [lead, List.cons_append, List.nil_append, if_neg h1, if_neg h2, if_pos h3, h4, h5,
      if_true, h6, hc, List.length_cons, List.length_nil]
  · refine ⟨_, _, rfl, ?_⟩
    have h1 : ¬ (0xF0 + n / 0x40000 < 0x80) := by omega
    have h2 : ¬ (0xC2 ≤ 0xF0 + n / 0x40000 ∧ 0xF0 + n / 0x40000 ≤ 0xDF) := by omega
    have h3 : ¬ (0xE0 ≤ 0xF0 + n / 0x40000 ∧ 0xF0 + n / 0x40000 ≤ 0xEF) := by omega
    have h4 : 0xF0 ≤ 0xF0 + n / 0x40000 ∧ 0xF0 + n / 0x40000 ≤ 0xF4 := by omega
    have h5 : isSecond (0xF0 + n / 0x40000) (0x80 + n / 0x1000 % 0x40) = true := by
      simp [isSecond, isTail]; omega
    have h6 : isTail (0x80 + n / 0x40 % 0x40) = true := by simp [isTail]; omega
    have h7 : isTail (0x80 + n % 0x40) = true := by simp [isTail]; omega
    have h8 : (0xF0 + n / 0x40000 - 0xF0) * 0x40000 + (0x80 + n / 0x1000 % 0x40 - 0x80) * 0x1000 +
        (0x80 + n / 0x40 % 0x40 - 0x80) * 0x40 + (0x80 + n % 0x40 - 0x80) = n := by omega
    simp only [lead, List.cons_append, List.nil_append, if_neg h1, if_neg h2, if_neg h3, if_pos h4,
      h5, h6, h7, if_true, h8, hc, List.length_cons, List.length_nil]

/-- **Reading a written character** gives it back, whatever follows. -/
theorem decode_encodeChar (c : Char) (r : List Nat) :
    decode (encodeChar c ++ r) = c :: decode r := by
  obtain ⟨a, s, hs, hl⟩ := lead_encodeChar c r
  rw [hs, List.cons_append, decode, decodeAfter, hl, decodeAfter_append, decode]

/-- **Reading a written text** gives it back. -/
theorem decode_encode (s : List Char) : decode (encode s) = s := by
  induction s with
  | nil => rfl
  | cons c r ih =>
    rw [encode, List.flatMap_cons, ← encode, decode_encodeChar, ih]

end Provision.Text.Utf8
