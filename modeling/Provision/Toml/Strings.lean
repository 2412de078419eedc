import Provision.Json.Reader
import Provision.Toml.Value

/-!
# TOML strings

Strings are basic, with escapes, or literal, and either kind may run over
several lines. Line ends in them read as a line feed.

* `Toml.readString`: a string of any of the four kinds.
* `Toml.readLineString`: a string of one line, as in a key.
* `Toml.escape?`: the character that an escape stands for.
-/

namespace Provision.Toml

/-- Blanks within a line. -/
def isSpace (c : Char) : Bool := c = ' ' || c = '\t'

/-- Characters that may stand in strings and comments: no control characters
but the tab. -/
def isText (c : Char) : Bool := c = '\t' || (0x20 ≤ c.toNat && c.toNat ≠ 0x7F)

/-- What a line end at the start of a text is long. -/
def newlineLength? : List Char → Option Nat
  | '\n' :: _ => some 1
  | '\r' :: '\n' :: _ => some 2
  | _ => none

/-- The text without a line end at its start. -/
def dropNewline (s : List Char) : List Char := s.drop ((newlineLength? s).getD 0)

/-- The character with the number that hexadecimal digits spell. -/
def ofHex? (digits : List Char) : Option Char := do
  let n ← digits.foldlM (fun n c => (16 * n + ·) <$> Json.hexValue? c) 0
  if Nat.isValidChar n then some (.ofNat n) else none

/-- The character of an escape after its backslash, and how long the escape
is. -/
def escape? : List Char → Option (Char × Nat)
  | 'b' :: _ => some ('\x08', 1)
  | 't' :: _ => some ('\t', 1)
  | 'n' :: _ => some ('\n', 1)
  | 'f' :: _ => some ('\x0c', 1)
  | 'r' :: _ => some ('\r', 1)
  | '"' :: _ => some ('"', 1)
  | '\\' :: _ => some ('\\', 1)
  | 'u' :: r => if r.length < 4 then none else (ofHex? (r.take 4)).map (·, 5)
  | 'U' :: r => if r.length < 8 then none else (ofHex? (r.take 8)).map (·, 9)
  | _ => none

/-- A character put before what a rest holds. -/
def push (c : Char) (s : List Char × List Char) : List Char × List Char := (c :: s.1, s.2)

/-- A basic string of one line after its quotation mark and `k` characters. -/
def readBasic : Nat → List Char → Except Fault (List Char × List Char)
  | _, [] => fail []
  | k + 1, _ :: r => readBasic k r
  | 0, c :: r =>
    if c = '"' then .ok ([], r)
    else if c = '\\' then
      match escape? r with
      | some (x, n) => push x <$> readBasic n r
      | none => fail r
    else if isText c then push c <$> readBasic 0 r
    else fail r

/-- A literal string of one line after its apostrophe. -/
def readLiteral : List Char → Except Fault (List Char × List Char)
  | [] => fail []
  | c :: r =>
    if c = '\'' then .ok ([], r)
    else if isText c then push c <$> readLiteral r
    else fail r

/-- The blanks and line ends at the start of a text. -/
def blankRun : List Char → List Char
  | '\r' :: '\n' :: r => '\r' :: '\n' :: blankRun r
  | c :: r => if isSpace c ∨ c = '\n' then c :: blankRun r else []
  | [] => []

/-- How much a backslash at the end of a line leaves out after it. -/
def continuation? (s : List Char) : Option Nat :=
  let run := blankRun s
  if '\n' ∈ run then some run.length else none

/-- How a text that starts with three or more quotes ends a string: up to two
of them belong to it. -/
def closing (quote : Char) (s : List Char) : List Char × List Char :=
  let extra := min ((s.takeWhile (· = quote)).length - 3) 2
  (List.replicate extra quote, s.drop (3 + extra))

/-- Whether a text starts with three quotes. -/
def isClosing (quote : Char) (s : List Char) : Bool :=
  (List.replicate 3 quote).isPrefixOf s

/-- A basic string of several lines after its opening and `k` characters. -/
def readLongBasic : Nat → List Char → Except Fault (List Char × List Char)
  | _, [] => fail []
  | k + 1, _ :: r => readLongBasic k r
  | 0, c :: r =>
    if isClosing '"' (c :: r) then .ok (closing '"' (c :: r))
    else if c = '\\' then
      match continuation? r, escape? r with
      | some n, _ => readLongBasic n r
      | none, some (x, n) => push x <$> readLongBasic n r
      | none, none => fail r
    else
      match newlineLength? (c :: r) with
      | some n => push '\n' <$> readLongBasic (n - 1) r
      | none => if isText c then push c <$> readLongBasic 0 r else fail r

/-- A literal string of several lines after its opening and `k` characters. -/
def readLongLiteral : Nat → List Char → Except Fault (List Char × List Char)
  | _, [] => fail []
  | k + 1, _ :: r => readLongLiteral k r
  | 0, c :: r =>
    if isClosing '\'' (c :: r) then .ok (closing '\'' (c :: r))
    else
      match newlineLength? (c :: r) with
      | some n => push '\n' <$> readLongLiteral (n - 1) r
      | none => if isText c then push c <$> readLongLiteral 0 r else fail r

/-- A string of one line, and the rest of the text. -/
def readLineString : List Char → Except Fault (List Char × List Char)
  | '"' :: r => readBasic 0 r
  | '\'' :: r => readLiteral r
  | r => fail r

/-- A string, and the rest of the text. -/
def readString : List Char → Except Fault (List Char × List Char)
  | '"' :: '"' :: '"' :: r => readLongBasic 0 (dropNewline r)
  | '\'' :: '\'' :: '\'' :: r => readLongLiteral 0 (dropNewline r)
  | r => readLineString r

end Provision.Toml
