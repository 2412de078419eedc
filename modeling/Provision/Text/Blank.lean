/-!
# White space, words, lines and columns

The characters of the Unicode property `White_Space`, and the three ways a text
is cut: at blanks into words, at line ends into lines, at a character into
pieces. And how texts are put together: blanks fill a column, line feeds end lines.

* `trim`, `words` and `lines` are defined on lists of characters by core operators.
* `splitOnce_eq_some`: what is cut at a character is cut at the first one.
* `occurs`: whether some characters stand in a text.
* `padRight`, `padLeft`: a text in a column, at its left or at its right.
* `unlines`: lines, each with a line feed at its end.
* `least?`: the first of some texts, which are ordered by their characters.
-/

namespace Provision.Text

/-- The 25 characters with the Unicode property `White_Space`. -/
def isBlank (c : Char) : Bool :=
  (0x09 ≤ c.toNat && c.toNat ≤ 0x0D) || c.toNat == 0x20 || c.toNat == 0x85 || c.toNat == 0xA0 ||
  c.toNat == 0x1680 || (0x2000 ≤ c.toNat && c.toNat ≤ 0x200A) || c.toNat == 0x2028 ||
  c.toNat == 0x2029 || c.toNat == 0x202F || c.toNat == 0x205F || c.toNat == 0x3000

/-- A text of blanks only, or of nothing. -/
def isBlankText (s : String) : Bool := s.toList.all isBlank

/-- The characters without the blanks at either end. -/
def trimChars (s : List Char) : List Char :=
  ((s.dropWhile isBlank).reverse.dropWhile isBlank).reverse

/-- The text without the blanks at either end. -/
def trim (s : String) : String := .ofList (trimChars s.toList)

/-- The maximal runs of characters that are not blank. -/
def words (s : List Char) : List (List Char) := (s.splitOnP isBlank).filter (· ≠ [])

/-- A line without the carriage return before its line feed. -/
def dropReturn (s : List Char) : List Char :=
  if s.getLast? = some '\r' then s.dropLast else s

/-- The lines of a text: each ends with a line feed, or with a carriage return
and a line feed; the last one may end with the text. -/
def lines (s : List Char) : List (List Char) :=
  let pieces := s.splitOn '\n'
  pieces.dropLast.map dropReturn ++ (pieces.getLast?.filter (· ≠ [])).toList

/-- The characters before and after the first `c`, when there is one. -/
def splitOnce (c : Char) : List Char → Option (List Char × List Char)
  | [] => none
  | x :: r => if x = c then some ([], r) else (splitOnce c r).map fun (a, b) => (x :: a, b)

/-- A text is cut at the first occurrence of a character. -/
theorem splitOnce_eq_some {c : Char} {s a b : List Char} :
    splitOnce c s = some (a, b) ↔ c ∉ a ∧ s = a ++ c :: b := by
  induction s generalizing a with
  | nil => simp [splitOnce]
  | cons x r ih =>
    unfold splitOnce
    by_cases hx : x = c
    · rw [if_pos hx, Option.some_inj, Prod.mk.injEq]
      constructor
      · rintro ⟨rfl, rfl⟩
        exact ⟨List.not_mem_nil, by rw [hx, List.nil_append]⟩
      · rintro ⟨hout, heq⟩
        cases a with
        | nil => exact ⟨rfl, (List.cons.inj heq).2⟩
        | cons y a => exact absurd ((List.cons.inj heq).1 ▸ hx ▸ List.mem_cons_self) hout
    · rw [if_neg hx, Option.map_eq_some_iff]
      constructor
      · rintro ⟨⟨a', b'⟩, hr, heq⟩
        obtain ⟨rfl, rfl⟩ := Prod.mk.inj heq
        obtain ⟨hout, rfl⟩ := ih.1 hr
        exact ⟨List.not_mem_cons_of_ne_of_not_mem (Ne.symm hx) hout, rfl⟩
      · rintro ⟨hout, heq⟩
        cases a with
        | nil => exact absurd (List.cons.inj heq).1 hx
        | cons y a =>
          obtain ⟨rfl, rfl⟩ := List.cons.inj heq
          exact ⟨(a, b), ih.2 ⟨fun hmem => hout (List.mem_cons_of_mem _ hmem), rfl⟩, rfl⟩

/-- The pieces of a text between the occurrences of a character. -/
def split (c : Char) (s : String) : List String := (s.toList.splitOn c).map .ofList

/-- Whether some characters stand in a text, one after the other. -/
def occurs (part : List Char) : List Char → Bool
  | [] => part.isEmpty
  | c :: rest => part.isPrefixOf (c :: rest) || occurs part rest

/-- A text at the left of a column. What does not fit is not cut. -/
def padRight (width : Nat) (s : String) : String :=
  s ++ .ofList (List.replicate (width - s.length) ' ')

/-- A text at the right of a column. What does not fit is not cut. -/
def padLeft (width : Nat) (s : String) : String :=
  .ofList (List.replicate (width - s.length) ' ') ++ s

/-- Lines, each with a line feed at its end. -/
def unlines (lines : List String) : String := String.join (lines.map (· ++ "\n"))

/-- The first text in order. -/
def least? : List String → Option String
  | [] => none
  | s :: rest => some (rest.foldl (fun a b => if b < a then b else a) s)

end Provision.Text
