import Provision.Json.Printer
import Provision.Json.Reader
import Provision.Proofs.Faults

/-!
# What is written can be read

For values without numbers, which is what the program writes of its own. The layout does not
matter to the reader, since it skips the blanks before every token.

* `readString_quoted`: a string is read as it was written, whatever its characters.
* `Plain`: the values that are made of texts, truth values and `null`, to some depth.
* `Reads`: a value is read back from its layout, and the rest of the text is left.
* `Plain.reads`, `parse_pretty`: **a value of at most 127 levels is read as it was written.**
-/

namespace Provision.Json

section Strings

theorem hexValue?_hexDigit : ∀ n < 16, hexValue? (hexDigit n) = some n := by decide

theorem readString_quote (rest : List Char) : readString ('"' :: rest) = .ok (some [], rest) := by
  rw [readString.eq_def]
  simp

theorem readString_short {e c : Char} (hu : e ≠ 'u') (he : shortEscape? e = some c) (s : List Char) :
    readString ('\\' :: e :: s) = push c <$> readString s := by
  rw [readString.eq_def]
  simp [hu, he]

theorem readString_plain {c : Char} (hquote : c ≠ '"') (hslash : c ≠ '\\') (hprint : ¬c.toNat < 0x20)
    (s : List Char) : readString (c :: s) = push c <$> readString s := by
  rw [readString.eq_def]
  simp [hquote, hslash, hprint]

/-- A control character is read from its number. -/
theorem readString_control {c : Char} (hcontrol : c.toNat < 0x20) (s : List Char) :
    readString ('\\' :: 'u' :: '0' :: '0' :: hexDigit (c.toNat / 16) :: hexDigit (c.toNat % 16) :: s) =
      push c <$> readString s := by
  have hzero : hexValue? '0' = some 0 := by decide
  have hhigh := hexValue?_hexDigit (c.toNat / 16) (by omega)
  have hlow := hexValue?_hexDigit (c.toNat % 16) (by omega)
  have hnumber : hex4? '0' '0' (hexDigit (c.toNat / 16)) (hexDigit (c.toNat % 16)) = some c.toNat := by
    simp only [hex4?, hzero, hhigh, hlow, Option.bind_eq_bind, Option.bind_some, Option.pure_def,
      Option.some.injEq]
    omega
  have hnotHigh : isHighSurrogate c.toNat = false := by
    simp [isHighSurrogate]
    omega
  have hnotLow : isLowSurrogate c.toNat = false := by
    simp [isLowSurrogate]
    omega
  rw [readString.eq_def]
  simp [hnumber, hnotHigh, hnotLow, Char.ofNat_toNat]

/-- One character of a string is read as it was written. -/
theorem readString_escapeChar (c : Char) (s : List Char) :
    readString (escapeChar c ++ s) = push c <$> readString s := by
  unfold escapeChar
  -- the characters with a letter of their own come first, then the other control characters
  by_cases hquote : c = '"'
  · subst hquote
    exact readString_short (by decide) (by decide) s
  rw [if_neg hquote]
  by_cases hslash : c = '\\'
  · subst hslash
    exact readString_short (by decide) (by decide) s
  rw [if_neg hslash]
  split_ifs with hb hf hn hr ht hcontrol
  · subst hb
    exact readString_short (by decide) (by decide) s
  · subst hf
    exact readString_short (by decide) (by decide) s
  · subst hn
    exact readString_short (by decide) (by decide) s
  · subst hr
    exact readString_short (by decide) (by decide) s
  · subst ht
    exact readString_short (by decide) (by decide) s
  · exact readString_control hcontrol s
  · exact readString_plain hquote hslash hcontrol s

/-- **A string is read as it was written**, whatever its characters. -/
theorem readString_quoted (chars rest : List Char) :
    readString (chars.flatMap escapeChar ++ '"' :: rest) = .ok (some chars, rest) := by
  induction chars with
  | nil => exact readString_quote rest
  | cons c chars ih =>
    rw [List.flatMap_cons, List.append_assoc, readString_escapeChar, ih]
    rfl

end Strings

section Blanks

/-- Blanks before a token are skipped. -/
theorem skipSpace_newline (depth : Nat) (s : List Char) : skipSpace (newline depth ++ s) = skipSpace s := by
  have hblanks : ∀ n, skipSpace (List.replicate n ' ' ++ s) = skipSpace s := by
    intro n
    induction n with
    | zero => rfl
    | succ n ih => exact ih
  exact hblanks _

theorem skipSpace_cons {c : Char} (h : isSpace c = false) (s : List Char) :
    skipSpace (c :: s) = c :: s := by
  simp [skipSpace, h]

theorem skipSpace_skipSpace : ∀ s : List Char, skipSpace (skipSpace s) = skipSpace s
  | [] => rfl
  | c :: s => by
    cases h : isSpace c
    · rw [skipSpace_cons h, skipSpace_cons h]
    · simpa [skipSpace, h] using skipSpace_skipSpace s

/-- A value is read in the same way with blanks before it. -/
theorem readValue_newline (fuel depth layout : Nat) (s : List Char) :
    readValue (fuel + 1) depth (newline layout ++ s) = readValue (fuel + 1) depth s := by
  simp only [readValue, skipSpace_newline]

end Blanks

/-- The values made of texts, truth values and `null`, with at most `n` levels. -/
inductive Plain : Nat → Json → Prop
  | null (n : Nat) : Plain n .null
  | bool (n : Nat) (b : Bool) : Plain n (.bool b)
  | string (n : Nat) (s : String) : Plain n (.string s)
  | array {n : Nat} {items : List Json} (below : ∀ j ∈ items, Plain n j) : Plain (n + 1) (.array items)
  | object {n : Nat} {members : List (String × Json)} (below : ∀ m ∈ members, Plain n m.2) :
    Plain (n + 1) (.object members)

/-- The value is read back from its layout in enough steps, inside `depth` arrays and objects. -/
def Reads (layout depth : Nat) (j : Json) : Prop :=
  ∀ (fuel : Nat) (rest : List Char), 2 * (prettyChars layout j).length ≤ fuel →
    readValue fuel depth (prettyChars layout j ++ rest) = .ok (j, rest)

section Values

variable {layout depth : Nat}

/-- The layout of a value is not empty and starts with no blank. -/
theorem Plain.prettyChars_eq {n : Nat} {j : Json} (h : Plain n j) (layout : Nat) :
    ∃ c s, prettyChars layout j = c :: s ∧ isSpace c = false ∧ c ≠ ']' := by
  cases h with
  | null => exact ⟨'n', _, rfl, by decide, by decide⟩
  | bool n b => cases b <;> exact ⟨_, _, rfl, by decide, by decide⟩
  | string => exact ⟨'"', _, rfl, by decide, by decide⟩
  | @array n items below =>
    cases items <;> exact ⟨'[', _, rfl, by decide, by decide⟩
  | @object n members below =>
    cases members <;> exact ⟨'\x7b', _, rfl, by decide, by decide⟩

theorem reads_word {j : Json} (h : j = .null ∨ ∃ b, j = .bool b) : Reads layout depth j := by
  intro fuel rest hfuel
  have hlength : 0 < (prettyChars layout j).length := by
    rcases h with rfl | ⟨b, rfl⟩
    · simp [prettyChars, printLeaf]
    · cases b <;> simp [prettyChars, printLeaf]
  obtain ⟨fuel, rfl⟩ : ∃ k, fuel = k + 1 := ⟨fuel - 1, by omega⟩
  rcases h with rfl | ⟨b, rfl⟩
  · simp [prettyChars, printLeaf, readValue, skipSpace, isSpace, expect, bind, Except.bind]
  · cases b <;>
      simp [prettyChars, printLeaf, readValue, skipSpace, isSpace, expect, bind, Except.bind]

theorem reads_string (s : String) : Reads layout depth (.string s) := by
  intro fuel rest hfuel
  have hlength : 2 ≤ (prettyChars layout (.string s)).length := by simp [prettyChars, printLeaf, quoted]
  obtain ⟨fuel, rfl⟩ : ∃ k, fuel = k + 1 := ⟨fuel - 1, by omega⟩
  have hskip : skipSpace (prettyChars layout (.string s) ++ rest) =
      '"' :: (s.toList.flatMap escapeChar ++ '"' :: rest) := by
    simp [prettyChars, printLeaf, quoted, skipSpace, isSpace]
  simp only [readValue, hskip, if_true, readString_quoted, bind, Except.bind, Option.elim,
    String.ofList_toList]

/-- The elements of an array after the first one. -/
theorem readMoreItems_pretty : ∀ {items : List Json} (fuel : Nat) (rest : List Char),
    (∀ j ∈ items, Reads (layout + 1) depth j) → 2 * (prettyItems layout items).length ≤ fuel →
    readMoreItems fuel depth (prettyItems layout items ++ rest) = .ok (items, rest) := by
  intro items
  induction items with
  | nil =>
    intro fuel rest _ hfuel
    have hlength : 0 < (prettyItems layout []).length := by simp [prettyItems]
    obtain ⟨fuel, rfl⟩ : ∃ k, fuel = k + 1 := ⟨fuel - 1, by omega⟩
    simp only [readMoreItems, prettyItems, List.append_assoc, skipSpace_newline]
    rfl
  | cons j items ih =>
    intro fuel rest hreads hfuel
    have hlength : (prettyItems layout (j :: items)).length = 1 + (newline (layout + 1)).length +
        (prettyChars (layout + 1) j).length + (prettyItems layout items).length := by
      simp [prettyItems]
      omega
    have hnewline : 0 < (newline (layout + 1)).length := by simp [newline]
    obtain ⟨fuel, rfl⟩ : ∃ k, fuel = k + 1 + 1 := ⟨fuel - 2, by omega⟩
    have htext : prettyItems layout (j :: items) ++ rest = ',' :: (newline (layout + 1) ++
        (prettyChars (layout + 1) j ++ (prettyItems layout items ++ rest))) := by
      simp [prettyItems]
    have hfirst := hreads j List.mem_cons_self (fuel + 1) (prettyItems layout items ++ rest) (by omega)
    have hmore := ih (fuel + 1) rest (fun j hj => hreads j (List.mem_cons_of_mem _ hj)) (by omega)
    rw [htext, readMoreItems, skipSpace_cons (by decide)]
    simp only [readValue_newline, hfirst, hmore, bind, Except.bind]

/-- The elements of an array. -/
theorem readItems_pretty {n : Nat} {j : Json} {items : List Json} (fuel : Nat) (rest : List Char)
    (hplain : Plain n j) (hreads : ∀ i ∈ j :: items, Reads (layout + 1) depth i)
    (hfuel : 2 * ((prettyChars (layout + 1) j).length + (prettyItems layout items).length) ≤ fuel) :
    readItems (fuel + 1) depth (newline (layout + 1) ++
      (prettyChars (layout + 1) j ++ (prettyItems layout items ++ rest))) = .ok (j :: items, rest) := by
  obtain ⟨c, s, hfirst, hspace, hend⟩ := hplain.prettyChars_eq (layout + 1)
  have hskip : skipSpace (newline (layout + 1) ++
      (prettyChars (layout + 1) j ++ (prettyItems layout items ++ rest))) =
        prettyChars (layout + 1) j ++ (prettyItems layout items ++ rest) := by
    rw [skipSpace_newline, hfirst, List.cons_append, skipSpace_cons hspace]
  have hitem := hreads j List.mem_cons_self fuel (prettyItems layout items ++ rest) (by omega)
  have hmore := readMoreItems_pretty fuel rest (fun i hi => hreads i (List.mem_cons_of_mem _ hi))
    (by omega)
  rw [readItems, hskip]
  split
  · rename_i r heq
    rw [hfirst] at heq
    exact absurd (List.cons.inj heq).1 hend
  · simp only [hitem, hmore, bind, Except.bind]

theorem reads_array {n : Nat} {items : List Json} (hdepth : depth + 1 ≤ maxDepth)
    (hplain : ∀ j ∈ items, Plain n j) (hreads : ∀ j ∈ items, Reads (layout + 1) (depth + 1) j) :
    Reads layout depth (.array items) := by
  intro fuel rest hfuel
  cases items with
  | nil =>
    have hlength : 2 ≤ (prettyChars layout (.array [])).length := by simp [prettyChars, printLeaf]
    obtain ⟨fuel, rfl⟩ : ∃ k, fuel = k + 1 + 1 := ⟨fuel - 2, by omega⟩
    simp [prettyChars, printLeaf, readValue, readItems, skipSpace, isSpace, bind, Except.bind, atDepth,
      hdepth]
  | cons j items =>
    have hlength : (prettyChars layout (.array (j :: items))).length = 1 + (newline (layout + 1)).length +
        (prettyChars (layout + 1) j).length + (prettyItems layout items).length := by
      simp [prettyChars]
      omega
    have hnewline : 0 < (newline (layout + 1)).length := by simp [newline]
    obtain ⟨fuel, rfl⟩ : ∃ k, fuel = k + 1 + 1 := ⟨fuel - 2, by omega⟩
    have htext : prettyChars layout (.array (j :: items)) ++ rest = '[' :: (newline (layout + 1) ++
        (prettyChars (layout + 1) j ++ (prettyItems layout items ++ rest))) := by
      simp [prettyChars]
    have hitems := readItems_pretty fuel rest (hplain j List.mem_cons_self) hreads (by omega)
    rw [htext, readValue, skipSpace_cons (by decide)]
    simp only [hitems, bind, Except.bind, atDepth, if_pos hdepth]
    rfl

/-- The layout of a member. -/
def memberChars (layout : Nat) (m : String × Json) : List Char :=
  newline (layout + 1) ++ (quoted m.1 ++ ':' :: ' ' :: prettyChars (layout + 1) m.2)

theorem length_memberChars (layout : Nat) (m : String × Json) :
    3 + (prettyChars (layout + 1) m.2).length ≤ (memberChars layout m).length := by
  simp [memberChars, newline, quoted]
  omega

/-- A key, a colon and a value. -/
theorem readMember_pretty {m : String × Json} (hreads : Reads (layout + 1) depth m.2) (fuel : Nat)
    (rest : List Char) (hfuel : 2 * (memberChars layout m).length ≤ fuel + 2) :
    readMember fuel depth (memberChars layout m ++ rest) = .ok ((some m.1, m.2), rest) := by
  have hlength := length_memberChars layout m
  obtain ⟨fuel, rfl⟩ : ∃ k, fuel = k + 1 + 1 := ⟨fuel - 2, by omega⟩
  have hskip : skipSpace (memberChars layout m ++ rest) = '"' :: (m.1.toList.flatMap escapeChar ++
      '"' :: (':' :: ' ' :: (prettyChars (layout + 1) m.2 ++ rest))) := by
    rw [memberChars, List.append_assoc, skipSpace_newline]
    simp [quoted, skipSpace, isSpace]
  have hcolon : expect [':'] (skipSpace (':' :: ' ' :: (prettyChars (layout + 1) m.2 ++ rest))) =
      .ok (' ' :: (prettyChars (layout + 1) m.2 ++ rest)) := by
    simp [expect, skipSpace, isSpace]
  have hblank : readValue (fuel + 1) depth (' ' :: (prettyChars (layout + 1) m.2 ++ rest)) =
      readValue (fuel + 1) depth (prettyChars (layout + 1) m.2 ++ rest) := by
    simp [readValue, skipSpace, isSpace]
  rw [readMember, hskip]
  simp only [readString_quoted, hcolon, hblank, hreads (fuel + 1) rest (by omega), bind, Except.bind,
    Option.map_some, String.ofList_toList]

/-- The members of an object after the first one. -/
theorem readMoreMembers_pretty : ∀ {members : List (String × Json)} (fuel : Nat) (rest : List Char),
    (∀ m ∈ members, Reads (layout + 1) depth m.2) → 2 * (prettyMembers layout members).length ≤ fuel →
    readMoreMembers fuel depth (prettyMembers layout members ++ rest) =
      .ok (members.map fun m => (some m.1, m.2), rest) := by
  intro members
  induction members with
  | nil =>
    intro fuel rest _ hfuel
    have hlength : 0 < (prettyMembers layout []).length := by simp [prettyMembers]
    obtain ⟨fuel, rfl⟩ : ∃ k, fuel = k + 1 := ⟨fuel - 1, by omega⟩
    simp only [readMoreMembers, prettyMembers, List.append_assoc, skipSpace_newline]
    rfl
  | cons m members ih =>
    intro fuel rest hreads hfuel
    have htext : prettyMembers layout (m :: members) =
        ',' :: (memberChars layout m ++ prettyMembers layout members) := by
      simp [prettyMembers, memberChars]
    have hlength := length_memberChars layout m
    rw [htext, List.length_cons, List.length_append] at hfuel
    obtain ⟨fuel, rfl⟩ : ∃ k, fuel = k + 1 := ⟨fuel - 1, by omega⟩
    have hfirst := readMember_pretty (hreads m List.mem_cons_self) fuel
      (prettyMembers layout members ++ rest) (by omega)
    have hmore := ih fuel rest (fun m hm => hreads m (List.mem_cons_of_mem _ hm)) (by omega)
    rw [htext, List.cons_append, List.append_assoc, readMoreMembers, skipSpace_cons (by decide)]
    simp only [hfirst, hmore, bind, Except.bind, List.map_cons]

/-- The members of an object. -/
theorem readMembers_pretty {m : String × Json} {members : List (String × Json)} (fuel : Nat)
    (rest : List Char) (hreads : ∀ e ∈ m :: members, Reads (layout + 1) depth e.2)
    (hfuel : 2 * ((memberChars layout m).length + (prettyMembers layout members).length) ≤ fuel + 2) :
    readMembers (fuel + 1) depth (memberChars layout m ++ (prettyMembers layout members ++ rest)) =
      .ok ((m :: members).map fun e => (some e.1, e.2), rest) := by
  have hlength := length_memberChars layout m
  have hfirst := readMember_pretty (hreads m List.mem_cons_self) fuel
    (prettyMembers layout members ++ rest) (by omega)
  have hmore := readMoreMembers_pretty fuel rest
    (fun m hm => hreads m (List.mem_cons_of_mem _ hm)) (by omega)
  have hskip : skipSpace (memberChars layout m ++ (prettyMembers layout members ++ rest)) =
      '"' :: (skipSpace (memberChars layout m ++ (prettyMembers layout members ++ rest))).tail := by
    rw [memberChars, List.append_assoc, skipSpace_newline]
    simp [quoted, skipSpace, isSpace]
  have hmember : readMember fuel depth
      (skipSpace (memberChars layout m ++ (prettyMembers layout members ++ rest))) =
        readMember fuel depth (memberChars layout m ++ (prettyMembers layout members ++ rest)) := by
    obtain ⟨k, rfl⟩ : ∃ k, fuel = k + 1 := ⟨fuel - 1, by omega⟩
    simp only [readMember, skipSpace_skipSpace]
  rw [readMembers]
  split
  · rename_i r heq
    rw [hskip] at heq
    exact absurd (List.cons.inj heq).1 (by decide)
  · simp only [hmember, hfirst, hmore, bind, Except.bind, List.map_cons]

/-- Members whose keys can be read make an object. -/
theorem ofMembers_map (members : List (String × Json)) :
    ofMembers (members.map fun m => (some m.1, m.2)) = .object members := by
  have hall : (members.map fun m => (some m.1, m.2)).mapM
      (fun e => e.1.map (·, e.2)) = some members := by
    rw [List.mapM_map]
    exact (List.mapM_pure (m := Option) (f := id)).trans (by simp)
  rw [ofMembers, hall]

theorem reads_object {members : List (String × Json)} (hdepth : depth + 1 ≤ maxDepth)
    (hreads : ∀ m ∈ members, Reads (layout + 1) (depth + 1) m.2) :
    Reads layout depth (.object members) := by
  intro fuel rest hfuel
  cases members with
  | nil =>
    have hlength : 2 ≤ (prettyChars layout (.object [])).length := by simp [prettyChars, printLeaf]
    obtain ⟨fuel, rfl⟩ : ∃ k, fuel = k + 1 + 1 := ⟨fuel - 2, by omega⟩
    simp [prettyChars, printLeaf, readValue, readMembers, skipSpace, isSpace, bind, Except.bind, atDepth,
      hdepth, ofMembers]
  | cons m members =>
    have htext : prettyChars layout (.object (m :: members)) =
        '\x7b' :: (memberChars layout m ++ prettyMembers layout members) := by
      simp [prettyChars, memberChars]
    have hlength := length_memberChars layout m
    rw [htext, List.length_cons, List.length_append] at hfuel
    obtain ⟨fuel, rfl⟩ : ∃ k, fuel = k + 1 + 1 := ⟨fuel - 2, by omega⟩
    have hall := readMembers_pretty fuel rest hreads (by omega)
    rw [htext, List.cons_append, List.append_assoc, readValue, skipSpace_cons (by decide)]
    simp only [hall, bind, Except.bind, atDepth, if_pos hdepth, ofMembers_map]
    rfl

end Values

/-- **A value is read as it was written**, where all of it is within the levels that are read. -/
theorem Plain.reads {n : Nat} {j : Json} (h : Plain n j) :
    ∀ {layout depth : Nat}, depth + n ≤ maxDepth → Reads layout depth j := by
  induction h with
  | null => exact fun _ => reads_word (.inl rfl)
  | bool n b => exact fun _ => reads_word (.inr ⟨b, rfl⟩)
  | string n s => exact fun _ => reads_string s
  | array below ih =>
    exact fun hdepth => reads_array (by omega) below fun j hj => ih j hj (by omega)
  | object below ih =>
    exact fun hdepth => reads_object (by omega) fun m hm => ih m hm (by omega)

/-- **What is written of a value of at most 127 levels is that value.** -/
theorem parse_pretty {j : Json} (h : Plain maxDepth j) : parse j.pretty = .ok j := by
  have hreads : Reads 0 0 j := h.reads (by simp)
  have hread := hreads (2 * (prettyChars 0 j).length + 2) [] (by omega)
  rw [List.append_nil] at hread
  simp only [parse, pretty, String.toList_ofList, hread, bind, Except.bind]
  rfl

end Provision.Json
