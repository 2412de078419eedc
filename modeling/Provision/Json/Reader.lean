import Provision.Decimal
import Provision.Json.Value

/-!
# Reading JSON

The reader takes the grammar of RFC 8259 and nothing more: no blank other than
space, tab, line feed and carriage return, no comma at an end, nothing after
the value. What is well formed but has no value is kept as `Json.unreadable`,
so that it can still be skipped.

* `Json.readString`, `Json.readNumber`: the leaves; both return the rest of the
  text.
* `Json.readValue`: one value, with a bound on the steps.
* `Json.parse`: a whole text. A text of `n` characters is read in at most
  `2 * n + 2` steps, since every second step takes a character.
-/

namespace Provision.Json

/-- Why a text is not a JSON value, or a value not what is asked for. -/
inductive Fault where
  | malformed (left : Nat)
  | missing (field : String)
  | repeated (field : String)
  | unknownVariant (name : String)
  | mismatch (expected : String)
deriving DecidableEq, Inhabited, Repr

/-- The fault in words. -/
def Fault.message : Fault → String
  | malformed left => "malformed JSON " ++ toString left ++ " characters before the end"
  | missing field => "missing field '" ++ field ++ "'"
  | repeated field => "duplicate field '" ++ field ++ "'"
  | unknownVariant name => "unknown variant '" ++ name ++ "'"
  | mismatch expected => "invalid type: expected " ++ expected

/-- The fault at the start of a rest. -/
def fail {α : Type} (rest : List Char) : Except Fault α := .error (.malformed rest.length)

/-- How deep arrays and objects may be nested to have a value. -/
def maxDepth : Nat := 127

/-- Blanks between tokens. -/
def isSpace (c : Char) : Bool := c = ' ' || c = '\n' || c = '\t' || c = '\r'

/-- The text without the blanks before it. -/
def skipSpace (s : List Char) : List Char := s.dropWhile isSpace

/-- The value of a hexadecimal digit. -/
def hexValue? (c : Char) : Option Nat :=
  if '0' ≤ c ∧ c ≤ '9' then some (c.toNat - '0'.toNat)
  else if 'a' ≤ c ∧ c ≤ 'f' then some (c.toNat - 'a'.toNat + 10)
  else if 'A' ≤ c ∧ c ≤ 'F' then some (c.toNat - 'A'.toNat + 10)
  else none

/-- The number that four hexadecimal digits spell. -/
def hex4? (a b c d : Char) : Option Nat := do
  return (((← hexValue? a) * 16 + (← hexValue? b)) * 16 + (← hexValue? c)) * 16 + (← hexValue? d)

/-- The first half of a surrogate pair. -/
def isHighSurrogate (n : Nat) : Bool := 0xD800 ≤ n && n < 0xDC00

/-- The second half of a surrogate pair. -/
def isLowSurrogate (n : Nat) : Bool := 0xDC00 ≤ n && n < 0xE000

/-- The character of a surrogate pair. -/
def ofSurrogates (high low : Nat) : Char :=
  .ofNat (0x10000 + (high - 0xD800) * 0x400 + (low - 0xDC00))

/-- The character that a one-letter escape stands for. -/
def shortEscape? (c : Char) : Option Char :=
  if c = '"' ∨ c = '\\' ∨ c = '/' then some c
  else if c = 'b' then some '\x08'
  else if c = 'f' then some '\x0c'
  else if c = 'n' then some '\n'
  else if c = 'r' then some '\r'
  else if c = 't' then some '\t'
  else none

/-- A character put before what the rest of a string holds. -/
def push (c : Char) (s : Option (List Char) × List Char) : Option (List Char) × List Char :=
  (s.1.map (c :: ·), s.2)

/-- A string after its opening quotation mark: its characters, unless an
escape in it names none, and the rest of the text. -/
def readString : List Char → Except Fault (Option (List Char) × List Char)
  | [] => fail []
  | c :: r =>
    if c = '"' then .ok (some [], r)
    else if c = '\\' then
      match r with
      | [] => fail []
      | e :: r =>
        if e = 'u' then
          match r with
          | a :: b :: c :: d :: r =>
            match hex4? a b c d with
            | none => fail r
            | some n =>
              if isHighSurrogate n then
                match r with
                | '\\' :: 'u' :: a :: b :: c :: d :: r' =>
                  match hex4? a b c d with
                  | none => fail r'
                  | some m =>
                    if isLowSurrogate m then (push (ofSurrogates n m)) <$> readString r'
                    else (fun s => (none, s.2)) <$> readString r'
                | r => (fun s => (none, s.2)) <$> readString r
              else if isLowSurrogate n then (fun s => (none, s.2)) <$> readString r
              else (push (.ofNat n)) <$> readString r
          | r => fail r
        else
          match shortEscape? e with
          | some x => (push x) <$> readString r
          | none => fail r
    else if c.toNat < 0x20 then fail r
    else (push c) <$> readString r

/-- Digits, at least one, and the rest of the text. -/
def readDigits (s : List Char) : Except Fault (List Char × List Char) :=
  match s.takeWhile Char.isDigit with
  | [] => fail s
  | digits => .ok (digits, s.dropWhile Char.isDigit)

/-- The part of a number after its point, when there is one. -/
def readFraction : List Char → Except Fault (List Char × List Char)
  | '.' :: r => readDigits r
  | r => .ok ([], r)

/-- The exponent of a number with its mark, when there is one. -/
def readExponent : List Char → Except Fault (Option (List Char × Int) × List Char)
  | c :: r =>
    if c = 'e' ∨ c = 'E' then
      match r with
      | '-' :: r => do
        let (d, r) ← readDigits r
        .ok (some (c :: '-' :: d, -Decimal.ofDigits d), r)
      | '+' :: r => do
        let (d, r) ← readDigits r
        .ok (some (c :: '+' :: d, Decimal.ofDigits d), r)
      | r => do
        let (d, r) ← readDigits r
        .ok (some (c :: d, Decimal.ofDigits d), r)
    else .ok (none, c :: r)
  | [] => .ok (none, [])

/-- The value of a number from its parts: a whole number of 64 bits, or a
decimal that is not too large for a double. -/
def ofNumeral (negative : Bool) (whole fraction : List Char)
    (exponent : Option (List Char × Int)) : Json :=
  let n := Decimal.ofDigits whole
  let plain := fraction.isEmpty && exponent.isNone
  if plain && !negative && n < UInt64.size then .int n
  else if plain && negative && 0 < n && n ≤ 1 <<< 63 then .int (-n)
  else if Decimal.exceedsDouble (Decimal.ofDigits (whole ++ fraction))
      ((exponent.elim 0 (·.2)) - fraction.length) then .unreadable
  else
    .decimal <| .ofList <|
      (if negative then ['-'] else []) ++ whole ++
      (if fraction.isEmpty then [] else '.' :: fraction) ++ exponent.elim [] (·.1)

/-- A number without its sign, and the rest of the text. -/
def readUnsigned (negative : Bool) (s : List Char) : Except Fault (Json × List Char) := do
  let (whole, r) ← readDigits s
  if whole.length > 1 ∧ whole.head? = some '0' then fail s
  else
    let (fraction, r) ← readFraction r
    let (exponent, r) ← readExponent r
    .ok (ofNumeral negative whole fraction exponent, r)

/-- A number and the rest of the text. -/
def readNumber : List Char → Except Fault (Json × List Char)
  | '-' :: r => readUnsigned true r
  | r => readUnsigned false r

/-- The rest of the text after a word that has to stand there. -/
def expect (word : List Char) (s : List Char) : Except Fault (List Char) :=
  if word.isPrefixOf s then .ok (s.drop word.length) else fail s

/-- An array or object, unless it is nested too deeply. -/
def atDepth (depth : Nat) (j : Json) : Json := if depth ≤ maxDepth then j else .unreadable

/-- An object from its members, unless a key has no value. -/
def ofMembers (members : List (Option String × Json)) : Json :=
  match members.mapM fun (k, v) => k.map (·, v) with
  | some members => .object members
  | none => .unreadable

mutual

/-- A value inside `depth` arrays and objects, and the rest of the text. -/
def readValue : Nat → Nat → List Char → Except Fault (Json × List Char)
  | 0, _, s => fail s
  | fuel + 1, depth, s =>
    match skipSpace s with
    | [] => fail []
    | c :: r =>
      if c = '"' then do
        let (text, r) ← readString r
        .ok (text.elim .unreadable (.string <| .ofList ·), r)
      else if c = '[' then do
        let (items, r) ← readItems fuel (depth + 1) r
        .ok (atDepth (depth + 1) (.array items), r)
      else if c = '\x7b' then do
        let (members, r) ← readMembers fuel (depth + 1) r
        .ok (atDepth (depth + 1) (ofMembers members), r)
      else if c = 'n' then do .ok (.null, ← expect "ull".toList r)
      else if c = 't' then do .ok (.bool true, ← expect "rue".toList r)
      else if c = 'f' then do .ok (.bool false, ← expect "alse".toList r)
      else readNumber (c :: r)

/-- The elements of an array after its opening bracket. -/
def readItems : Nat → Nat → List Char → Except Fault (List Json × List Char)
  | 0, _, s => fail s
  | fuel + 1, depth, s =>
    match skipSpace s with
    | ']' :: r => .ok ([], r)
    | s => do
      let (j, r) ← readValue fuel depth s
      let (rest, r) ← readMoreItems fuel depth r
      .ok (j :: rest, r)

/-- The elements of an array after an element. -/
def readMoreItems : Nat → Nat → List Char → Except Fault (List Json × List Char)
  | 0, _, s => fail s
  | fuel + 1, depth, s =>
    match skipSpace s with
    | ']' :: r => .ok ([], r)
    | ',' :: r => do
      let (j, r) ← readValue fuel depth r
      let (rest, r) ← readMoreItems fuel depth r
      .ok (j :: rest, r)
    | s => fail s

/-- The members of an object after its opening brace. -/
def readMembers : Nat → Nat → List Char → Except Fault (List (Option String × Json) × List Char)
  | 0, _, s => fail s
  | fuel + 1, depth, s =>
    match skipSpace s with
    | '\x7d' :: r => .ok ([], r)
    | s => do
      let (m, r) ← readMember fuel depth s
      let (rest, r) ← readMoreMembers fuel depth r
      .ok (m :: rest, r)

/-- The members of an object after a member. -/
def readMoreMembers : Nat → Nat → List Char → Except Fault (List (Option String × Json) × List Char)
  | 0, _, s => fail s
  | fuel + 1, depth, s =>
    match skipSpace s with
    | '\x7d' :: r => .ok ([], r)
    | ',' :: r => do
      let (m, r) ← readMember fuel depth r
      let (rest, r) ← readMoreMembers fuel depth r
      .ok (m :: rest, r)
    | s => fail s

/-- A key, a colon and a value. -/
def readMember : Nat → Nat → List Char → Except Fault ((Option String × Json) × List Char)
  | 0, _, s => fail s
  | fuel + 1, depth, s =>
    match skipSpace s with
    | '"' :: r => do
      let (key, r) ← readString r
      let r ← expect [':'] (skipSpace r)
      let (j, r) ← readValue fuel depth r
      .ok ((key.map .ofList, j), r)
    | s => fail s

end

/-- The value that a whole text spells. -/
def parse (text : String) : Except Fault Json := do
  let s := text.toList
  let (j, r) ← readValue (2 * s.length + 2) 0 s
  match skipSpace r with
  | [] => .ok j
  | r => fail r

end Provision.Json
