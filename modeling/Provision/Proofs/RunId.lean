import Mathlib.Data.List.TakeDrop
import Mathlib.Data.String.Basic
import Provision.RunId.Bytes

/-!
# The form of the name of a run

A name consists of single bytes, so that it makes no difference whether a text is looked at byte by
byte or one character at a time, whatever characters it has.

* `RunId.Shaped`: 17 digits, a dash and 8 hexadecimal digits.
* `Text.bytes_of_ascii`, `Text.ascii_of_bytes`: the texts of which every character is one byte.
* `RunId.isValid_iff`, `isValidBytes_iff`: **what has the form of a name**, by its characters and by
  its bytes.
* `RunId.shaped_fresh`: the name of a new run has the form.
-/

namespace Provision

namespace Text

/-- The bytes of a text are those of its characters. -/
theorem toList_toUTF8 (s : String) : s.toUTF8.data.toList = s.toList.flatMap String.utf8EncodeChar := by
  have hbytes : s.toByteArray = s.toList.utf8Encode := by
    rw [← String.toByteArray_ofList, String.ofList_toList]
  change s.toByteArray.data.toList = _
  rw [hbytes, List.utf8Encode]
  exact List.toList_data_toByteArray

/-- A character below 128 is one byte. -/
theorem utf8EncodeChar_of_lt {c : Char} (h : c.toNat < 128) : String.utf8EncodeChar c = [c.toUInt8] := by
  have hle : c.val.toNat ≤ 127 := Nat.le_of_lt_succ h
  rw [String.utf8EncodeChar]
  simp only [if_pos hle]
  rfl

/-- Any other character has bytes from 128 on. -/
theorem exists_byte_ge {c : Char} (h : ¬c.toNat < 128) : ∃ b ∈ String.utf8EncodeChar c, 128 ≤ b.toNat := by
  have hgt : ¬c.val.toNat ≤ 127 := fun hle => h (Nat.lt_succ_of_le hle)
  rw [String.utf8EncodeChar]
  simp only [if_neg hgt]
  split
  · exact ⟨_, List.mem_cons_self, by simp; omega⟩
  split
  · exact ⟨_, List.mem_cons_self, by simp; omega⟩
  · exact ⟨_, List.mem_cons_self, by simp; omega⟩

variable {s : List Char}

theorem bytes_of_ascii (h : ∀ c ∈ s, c.toNat < 128) :
    s.flatMap String.utf8EncodeChar = s.map Char.toUInt8 := by
  induction s with
  | nil => rfl
  | cons c s ih =>
    obtain ⟨hc, hs⟩ := List.forall_mem_cons.1 h
    rw [List.flatMap_cons, utf8EncodeChar_of_lt hc, ih hs]
    rfl

theorem ascii_of_bytes (h : ∀ b ∈ s.flatMap String.utf8EncodeChar, b.toNat < 128) :
    ∀ c ∈ s, c.toNat < 128 := by
  intro c hc
  by_contra hlarge
  obtain ⟨b, hb, hge⟩ := exists_byte_ge hlarge
  exact absurd (h b (List.mem_flatMap.2 ⟨c, hc, hb⟩)) (by omega)

end Text

namespace RunId

/-- 17 decimal digits, a dash, and 8 hexadecimal digits in lower case. -/
def Shaped (id : String) : Prop :=
  ∃ stamp tag : List Char, id.toList = stamp ++ '-' :: tag ∧
    stamp.length = 17 ∧ (∀ c ∈ stamp, '0' ≤ c ∧ c ≤ '9') ∧
    tag.length = 8 ∧ ∀ c ∈ tag, '0' ≤ c ∧ c ≤ '9' ∨ 'a' ≤ c ∧ c ≤ 'f'

theorem isDigit_iff {c : Char} : c.isDigit = true ↔ '0' ≤ c ∧ c ≤ '9' := by
  simp [Char.isDigit, Char.le_def]

theorem isHexDigit_iff {c : Char} :
    Text.isHexDigit c = true ↔ ('0' ≤ c ∧ c ≤ '9') ∨ 'a' ≤ c ∧ c ≤ 'f' := by
  simp [Text.isHexDigit, isDigit_iff]

variable {id : String}

/-- **What has the form of a name**, by its characters. -/
theorem isValid_iff : isValid id = true ↔ Shaped id := by
  constructor
  · intro h
    unfold isValid at h
    split at h
    · rename_i stamp tag hsplit
      simp only [Bool.and_eq_true, beq_iff_eq, List.all_eq_true, isDigit_iff, isHexDigit_iff] at h
      obtain ⟨⟨⟨hstamp, hdigits⟩, htag⟩, hhex⟩ := h
      exact ⟨stamp, tag, (Text.splitOnce_eq_some.1 hsplit).2, hstamp, hdigits, htag, hhex⟩
    · cases h
  · rintro ⟨stamp, tag, hid, hstamp, hdigits, htag, hhex⟩
    have hdash : '-' ∉ stamp := fun h => absurd (hdigits _ h) (by decide)
    rw [isValid, Text.splitOnce_eq_some.2 ⟨hdash, hid⟩]
    simp only [Bool.and_eq_true, beq_iff_eq, List.all_eq_true, isDigit_iff, isHexDigit_iff]
    exact ⟨⟨⟨hstamp, hdigits⟩, htag⟩, hhex⟩

/-- The name of a new run has the form. -/
theorem shaped_fresh (created : Instant) (process : Nat) (plan : List String) :
    Shaped (fresh created process plan) :=
  isValid_iff.1 (isValid_make _ _ _ _ _)

/-! ### Byte by byte -/

/-- The bytes of digits and of a dash are those of the characters. -/
theorem byte_table {c : Char} (h : c.toNat < 128) : isDigitByte c.toUInt8 = c.isDigit ∧
    isHexByte c.toUInt8 = Text.isHexDigit c ∧ (c.toUInt8 = dashByte ↔ c = '-') := by
  have table : ∀ n : Fin 128, isDigitByte (Char.ofNat n).toUInt8 = (Char.ofNat n).isDigit ∧
      isHexByte (Char.ofNat n).toUInt8 = Text.isHexDigit (Char.ofNat n) ∧
      ((Char.ofNat n).toUInt8 = dashByte ↔ Char.ofNat n = '-') := by decide +kernel
  simpa using table ⟨c.toNat, h⟩

theorem isHexByte_of_isDigitByte {b : UInt8} (h : isDigitByte b = true) : isHexByte b = true := by
  rw [isHexByte, h, Bool.true_or]

theorem lt_of_isHexByte {b : UInt8} (h : isHexByte b = true) : b.toNat < 128 := by
  simp [isHexByte, isDigitByte, UInt8.le_iff_toNat_le] at h
  omega

theorem ne_dashByte {b : UInt8} (h : isDigitByte b = true) : b ≠ dashByte := by
  rintro rfl
  revert h
  decide

/-- What has the form of a name, by its bytes. -/
theorem isValidBytes_iff {bytes : List UInt8} : isValidBytes bytes = true ↔
    ∃ stamp tag, bytes = stamp ++ dashByte :: tag ∧ stamp.length = 17 ∧
      (∀ b ∈ stamp, isDigitByte b = true) ∧ tag.length = 8 ∧ ∀ b ∈ tag, isHexByte b = true := by
  unfold isValidBytes
  rw [List.span_eq_takeWhile_dropWhile]
  constructor
  · intro h
    split at h
    · rename_i stamp b tag hspan
      obtain ⟨hbefore, hafter⟩ := Prod.mk.inj hspan
      have hb : b = dashByte := by
        have hstop := List.head?_dropWhile_not (· != dashByte) bytes
        rw [hafter] at hstop
        simpa using hstop
      have hbytes : bytes = stamp ++ dashByte :: tag := by
        rw [← hb, ← hbefore, ← hafter, List.takeWhile_append_dropWhile]
      simp only [Bool.and_eq_true, beq_iff_eq, List.all_eq_true] at h
      obtain ⟨⟨⟨hstamp, hdigits⟩, htag⟩, hhex⟩ := h
      exact ⟨stamp, tag, hbytes, hstamp, hdigits, htag, hhex⟩
    · cases h
  · rintro ⟨stamp, tag, rfl, hstamp, hdigits, htag, hhex⟩
    have hpass : ∀ b ∈ stamp, (b != dashByte) = true := fun b hb => by simpa using ne_dashByte (hdigits b hb)
    rw [List.takeWhile_append_of_pos hpass, List.dropWhile_append_of_pos hpass,
      List.takeWhile_cons_of_neg (by simp), List.dropWhile_cons_of_neg (by simp), List.append_nil]
    simp only [Bool.and_eq_true, beq_iff_eq, List.all_eq_true]
    exact ⟨⟨⟨hstamp, hdigits⟩, htag⟩, hhex⟩

/-- A name has characters of one byte only. -/
theorem Shaped.ascii (h : Shaped id) : ∀ c ∈ id.toList, c.toNat < 128 := by
  obtain ⟨stamp, tag, hid, -, hdigits, -, hhex⟩ := h
  have hdigit : ∀ c : Char, '0' ≤ c ∧ c ≤ '9' → c.toNat < 128 := fun c hc =>
    Nat.lt_of_le_of_lt hc.2 (by decide)
  intro c hc
  rw [hid] at hc
  rcases List.mem_append.1 hc with hc | hc
  · exact hdigit c (hdigits c hc)
  · rcases List.mem_cons.1 hc with rfl | hc
    · decide
    · exact (hhex c hc).elim (hdigit c) fun hletter => Nat.lt_of_le_of_lt hletter.2 (by decide)

/-- There are no bytes from 128 on in a name. -/
theorem ascii_of_isValidBytes {bytes : List UInt8} (h : isValidBytes bytes = true) :
    ∀ b ∈ bytes, b.toNat < 128 := by
  obtain ⟨stamp, tag, rfl, -, hdigits, -, hhex⟩ := isValidBytes_iff.1 h
  intro b hb
  rcases List.mem_append.1 hb with hb | hb
  · exact lt_of_isHexByte (isHexByte_of_isDigitByte (hdigits b hb))
  · rcases List.mem_cons.1 hb with rfl | hb
    · decide
    · exact lt_of_isHexByte (hhex b hb)

section

variable {s : List Char} (hascii : ∀ c ∈ s, c.toNat < 128)
include hascii

theorem digitBytes_iff :
    (∀ b ∈ s.map Char.toUInt8, isDigitByte b = true) ↔ ∀ c ∈ s, '0' ≤ c ∧ c ≤ '9' := by
  rw [List.forall_mem_map]
  exact forall₂_congr fun c hc => by rw [(byte_table (hascii c hc)).1, isDigit_iff]

theorem hexBytes_iff : (∀ b ∈ s.map Char.toUInt8, isHexByte b = true) ↔
    ∀ c ∈ s, '0' ≤ c ∧ c ≤ '9' ∨ 'a' ≤ c ∧ c ≤ 'f' := by
  rw [List.forall_mem_map]
  exact forall₂_congr fun c hc => by rw [(byte_table (hascii c hc)).2.1, isHexDigit_iff]

end

/-- Where each byte is a character the bytes have the form if the characters do. -/
theorem isValidBytes_map (hascii : ∀ c ∈ id.toList, c.toNat < 128) :
    isValidBytes (id.toList.map Char.toUInt8) = true ↔ Shaped id := by
  rw [isValidBytes_iff]
  constructor
  · rintro ⟨_, _, hbytes, hstamp, hdigits, htag, hhex⟩
    obtain ⟨stamp, rest, hid, rfl, hrest⟩ := List.map_eq_append_iff.1 hbytes
    obtain ⟨dash, tag, rfl, hdash, rfl⟩ := List.map_eq_cons_iff.1 hrest
    rw [hid, List.forall_mem_append, List.forall_mem_cons] at hascii
    obtain ⟨hascii, hdash', hascii'⟩ := hascii
    obtain rfl := (byte_table hdash').2.2.1 hdash
    rw [List.length_map] at hstamp htag
    exact ⟨stamp, tag, hid, hstamp, (digitBytes_iff hascii).1 hdigits, htag, (hexBytes_iff hascii').1 hhex⟩
  · rintro ⟨stamp, tag, hid, hstamp, hdigits, htag, hhex⟩
    rw [hid, List.forall_mem_append, List.forall_mem_cons] at hascii
    obtain ⟨hascii, -, hascii'⟩ := hascii
    refine ⟨stamp.map Char.toUInt8, tag.map Char.toUInt8, ?_, ?_, (digitBytes_iff hascii).2 hdigits, ?_,
      (hexBytes_iff hascii').2 hhex⟩
    · rw [hid, List.map_append, List.map_cons]
      rfl
    · rw [List.length_map, hstamp]
    · rw [List.length_map, htag]

/-- **It makes no difference** whether the bytes of a text are looked at or its characters. -/
theorem isValidBytes_toUTF8 (id : String) : isValidBytes id.toUTF8.data.toList = isValid id := by
  rw [Bool.eq_iff_iff, isValid_iff, Text.toList_toUTF8]
  by_cases hascii : ∀ c ∈ id.toList, c.toNat < 128
  · rw [Text.bytes_of_ascii hascii, isValidBytes_map hascii]
  · exact ⟨fun h => absurd (Text.ascii_of_bytes (ascii_of_isValidBytes h)) hascii,
      fun h => absurd h.ascii hascii⟩

end RunId

end Provision
