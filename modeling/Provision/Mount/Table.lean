import Provision.Mount.Entry
import Provision.Text.Utf8

/-!
# The text of the mount table

One line an entry: source, target, type and options, then two numbers, with
blanks between them. In source and target a blank, a line end or a backslash is
written as a backslash and three octal digits.

* `Mount.unescape`, `Mount.escape`: a field and its written form.
* `Mount.parseTable`: the entries of a text; a line with fewer than four fields
  is skipped.
* `Mount.renderTable`: the text of entries.
-/

namespace Provision.Mount

open Text

/-- The value of an octal digit. -/
def octal? (b : Nat) : Option Nat := if 48 ≤ b ∧ b ≤ 55 then some (b - 48) else none

/-- The byte that three characters after a backslash stand for. The first one
may be a plus sign. -/
def escaped? (a b c : Nat) : Option Nat := do
  let n := (← if a = 43 then some 0 else octal? a) * 64 + (← octal? b) * 8 + (← octal? c)
  if n < 256 then some n else none

/-- The byte that an escape starting with `x` stands for. -/
def escapeAt? (x : Nat) : List Nat → Option Nat
  | a :: b :: c :: _ => if x = 92 then escaped? a b c else none
  | _ => none

/-- The bytes of a field without escapes, after the first `k` bytes. -/
def unescapeAfter : Nat → List Nat → List Nat
  | _, [] => []
  | k + 1, _ :: r => unescapeAfter k r
  | 0, x :: r =>
    match escapeAt? x r with
    | some n => n :: unescapeAfter 3 r
    | none => x :: unescapeAfter 0 r

/-- The text of a field without escapes. -/
def unescape (field : List Char) : String :=
  .ofList (Utf8.decode (unescapeAfter 0 (Utf8.encode field)))

/-- The entry that the fields of a line make. -/
def ofFields : List (List Char) → Option MountEntry
  | source :: target :: fstype :: options :: _ =>
    some {
      source := unescape source
      target := ⟨unescape target⟩
      fstype := .ofList fstype
      options := (options.splitOn ',').map .ofList }
  | _ => none

/-- The entries of a text. -/
def parseTable (text : String) : List MountEntry :=
  (lines text.toList).filterMap fun line => ofFields (words line)

/-- How a character stands in a field. -/
def escapeChar (c : Char) : List Char :=
  if c = ' ' then "\\040".toList
  else if c = '\t' then "\\011".toList
  else if c = '\n' then "\\012".toList
  else if c = '\\' then "\\134".toList
  else [c]

/-- The written form of a field. -/
def escape (s : String) : List Char := s.toList.flatMap escapeChar

/-- The line of an entry, with its line end. -/
def renderEntry (e : MountEntry) : List Char :=
  escape e.source ++ ' ' :: escape e.target.text ++ ' ' :: e.fstype.toList ++
    ' ' :: (",".intercalate e.options).toList ++ " 0 0\n".toList

/-- The text of entries. -/
def renderTable (entries : List MountEntry) : String := .ofList (entries.flatMap renderEntry)

end Provision.Mount
