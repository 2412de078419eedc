import Provision.Json.Value

/-!
# Writing JSON

Two layouts of one grammar: on one line without blanks, and one member or
element a line, two blanks deeper at each level. Quotation marks, backslashes
and control characters are escaped, and nothing else.

* `Json.compact`: the value on one line.
* `Json.pretty`: the value over many lines.
-/

namespace Provision.Json

/-- The digit for a number below sixteen. -/
def hexDigit (n : Nat) : Char :=
  if n < 10 then .ofNat ('0'.toNat + n) else .ofNat ('a'.toNat + (n - 10))

/-- How a character stands in a string. -/
def escapeChar (c : Char) : List Char :=
  if c = '"' then ['\\', '"']
  else if c = '\\' then ['\\', '\\']
  else if c = '\x08' then ['\\', 'b']
  else if c = '\x0c' then ['\\', 'f']
  else if c = '\n' then ['\\', 'n']
  else if c = '\r' then ['\\', 'r']
  else if c = '\t' then ['\\', 't']
  else if c.toNat < 0x20 then
    ['\\', 'u', '0', '0', hexDigit (c.toNat / 16), hexDigit (c.toNat % 16)]
  else [c]

/-- A string in quotation marks. -/
def quoted (s : String) : List Char := '"' :: s.toList.flatMap escapeChar ++ ['"']

/-- A whole number. -/
def printInt (n : Int) : List Char := (toString n).toList

/-- A value without parts. -/
def printLeaf : Json → List Char
  | .null | .unreadable => "null".toList
  | .bool true => "true".toList
  | .bool false => "false".toList
  | .int n => printInt n
  | .decimal literal => literal.toList
  | .string s => quoted s
  | .array _ => "[]".toList
  | .object _ => "\x7b\x7d".toList

mutual

/-- A value on one line. -/
def compactChars : Json → List Char
  | .array (j :: rest) => '[' :: compactChars j ++ compactItems rest
  | .object ((k, v) :: rest) => '\x7b' :: quoted k ++ ':' :: compactChars v ++ compactMembers rest
  | j => printLeaf j

def compactItems : List Json → List Char
  | [] => [']']
  | j :: rest => ',' :: compactChars j ++ compactItems rest

def compactMembers : List (String × Json) → List Char
  | [] => ['\x7d']
  | (k, v) :: rest => ',' :: quoted k ++ ':' :: compactChars v ++ compactMembers rest

end

/-- A line end and the blanks before what stands `depth` levels deep. -/
def newline (depth : Nat) : List Char := '\n' :: List.replicate (2 * depth) ' '

mutual

/-- A value over many lines, `depth` levels deep. -/
def prettyChars (depth : Nat) : Json → List Char
  | .array (j :: rest) =>
    '[' :: newline (depth + 1) ++ prettyChars (depth + 1) j ++ prettyItems depth rest
  | .object ((k, v) :: rest) =>
    '\x7b' :: newline (depth + 1) ++ quoted k ++ ':' :: ' ' :: prettyChars (depth + 1) v ++
      prettyMembers depth rest
  | j => printLeaf j

def prettyItems (depth : Nat) : List Json → List Char
  | [] => newline depth ++ [']']
  | j :: rest =>
    ',' :: newline (depth + 1) ++ prettyChars (depth + 1) j ++ prettyItems depth rest

def prettyMembers (depth : Nat) : List (String × Json) → List Char
  | [] => newline depth ++ ['\x7d']
  | (k, v) :: rest =>
    ',' :: newline (depth + 1) ++ quoted k ++ ':' :: ' ' :: prettyChars (depth + 1) v ++
      prettyMembers depth rest

end

/-- The value on one line. -/
def compact (j : Json) : String := .ofList j.compactChars

/-- The value over many lines. -/
def pretty (j : Json) : String := .ofList (j.prettyChars 0)

end Provision.Json
