import Provision.Toml.Moments
import Provision.Toml.Numbers
import Provision.Toml.Strings
import Provision.Toml.Tree

/-!
# Reading TOML

The reader takes TOML 1.0. Arrays and inline tables may be nested 79 deep, and
a dotted key may have 79 parts.

* `Toml.readKey`, `Toml.readValue`: a dotted key and a value.
* `Toml.readLines`: the lines of a document, one step each.
* `Toml.parse`: the table of a whole document. Every second step of reading a
  value takes a character, so `2 * n + 2` steps are enough for `n` characters.
-/

namespace Provision.Toml

/-- One more than how deep values may be nested, and how many parts a key may
have. -/
def depthLimit : Nat := 80

/-- The text without the blanks at the start of its line. -/
def skipSpace (s : List Char) : List Char := s.dropWhile isSpace

/-- The text without blanks, line ends and comments before it. -/
def skipBlank : Bool → List Char → List Char
  | _, [] => []
  | _, '\n' :: r => skipBlank false r
  | _, '\r' :: '\n' :: r => skipBlank false r
  | true, c :: r => if isText c then skipBlank true r else c :: r
  | false, c :: r =>
    if c = '#' then skipBlank true r
    else if isSpace c then skipBlank false r
    else c :: r

/-- The rest of the text after the end of a line: blanks, perhaps a comment, and
a line end or the end of the text. -/
def readLineEnd (s : List Char) : Except Fault (List Char) :=
  let r :=
    match skipSpace s with
    | '#' :: r => r.dropWhile isText
    | r => r
  match r, newlineLength? r with
  | [], _ => .ok []
  | r, some n => .ok (r.drop n)
  | r, none => fail r

/-- A character that may stand in a key without quotes. -/
def isBare (c : Char) : Bool := c.isAlphanum || c = '-' || c = '_'

/-- One part of a key, and the rest of the text. -/
def readKeyPart (s : List Char) : Except Fault (String × List Char) :=
  match s with
  | '"' :: _ | '\'' :: _ => do
    let (k, r) ← readLineString s
    .ok (.ofList k, r)
  | _ =>
    match s.takeWhile isBare with
    | [] => fail s
    | k => .ok (.ofList k, s.dropWhile isBare)

/-- At most `n` parts of a key with points between them. -/
def readKeyParts : Nat → List Char → Except Fault (List String × List Char)
  | 0, _ => .error .tooDeep
  | n + 1, s => do
    let (k, r) ← readKeyPart (skipSpace s)
    match skipSpace r with
    | '.' :: r => do
      let (path, r) ← readKeyParts n r
      .ok (k :: path, r)
    | r => .ok ([k], r)

/-- A dotted key: the tables it leads through and its last part, and the rest
of the text. -/
def readKey (s : List Char) : Except Fault (List String × String × List Char) := do
  let (parts, r) ← readKeyParts (depthLimit - 1) s
  match parts.reverse with
  | k :: path => .ok (path.reverse, k, r)
  | [] => fail s

/-- The rest of the text after a character that has to stand there. -/
def expect (c : Char) (s : List Char) : Except Fault (List Char) :=
  match readMark? c s with
  | some r => .ok r
  | none => fail s

/-- A moment or a number, and the rest of the text. -/
def readNumeral (s : List Char) : Except Fault (Toml × List Char) :=
  match ((readMoment? s).or (readDecimal? s)).or (readInt? s) with
  | some found => .ok found
  | none => fail s

/-- A value without parts, and the rest of the text. -/
def readLeaf (s : List Char) : Except Fault (Toml × List Char) :=
  match s with
  | '"' :: _ | '\'' :: _ => do
    let (text, r) ← readString s
    .ok (.string (.ofList text), r)
  | 't' :: 'r' :: 'u' :: 'e' :: r => .ok (.bool true, r)
  | 'f' :: 'a' :: 'l' :: 's' :: 'e' :: r => .ok (.bool false, r)
  | _ => readNumeral s

mutual

/-- A value, and the rest of the text. -/
def readValue : Nat → Nat → List Char → Except Fault (Toml × List Char)
  | 0, _, s => fail s
  | fuel + 1, depth, s =>
    match s with
    | '[' :: r =>
      if depth + 1 < depthLimit then do
        let (items, r) ← readItems fuel (depth + 1) r
        .ok (.array items, r)
      else .error .tooDeep
    | '\x7b' :: r =>
      if depth + 1 < depthLimit then do
        match skipSpace r with
        | '\x7d' :: r => .ok (.table [], r)
        | r =>
          let (entries, r) ← readPairs fuel (depth + 1) [] r
          .ok (.table (finish entries), r)
      else .error .tooDeep
    | s => readLeaf s

/-- The elements of an array after its bracket or after a comma. -/
def readItems : Nat → Nat → List Char → Except Fault (List Toml × List Char)
  | 0, _, s => fail s
  | fuel + 1, depth, s =>
    match skipBlank false s with
    | ']' :: r => .ok ([], r)
    | s => do
      let (v, r) ← readValue fuel depth s
      match skipBlank false r with
      | ']' :: r => .ok ([v], r)
      | ',' :: r => do
        let (rest, r) ← readItems fuel depth r
        .ok (v :: rest, r)
      | r => fail r

/-- The pairs of an inline table, put into what stands before them. -/
def readPairs : Nat → Nat → Entries → List Char → Except Fault (Entries × List Char)
  | 0, _, _, s => fail s
  | fuel + 1, depth, entries, s => do
    let (path, key, r) ← readKey s
    let r ← expect '=' r
    let (v, r) ← readValue fuel depth (skipSpace r)
    let entries ← insertDotted key v path entries
    match skipSpace r with
    | '\x7d' :: r => .ok (entries, r)
    | ',' :: r => readPairs fuel depth entries r
    | r => fail r

end

/-- What has been read of a document: its tables, and where the table that is
open stands. -/
structure Document where
  entries : Entries := []
  current : List String := []

/-- A key and its value, put into the open table, and the rest of the text. -/
def readPair (doc : Document) (s : List Char) : Except Fault (Document × List Char) := do
  let (path, key, r) ← readKey s
  let r ← expect '=' r
  let (v, r) ← readValue (2 * r.length + 2) 0 (skipSpace r)
  let r ← readLineEnd r
  let entries ← atHeader (insertDotted key v path) doc.current doc.entries
  .ok (⟨entries, doc.current⟩, r)

/-- A header after its first bracket, and the rest of the text. -/
def readHeader (doc : Document) : List Char → Except Fault (Document × List Char)
  | '[' :: s => do
    let (path, key, r) ← readKey s
    let r ← readLineEnd (← expect ']' (← expect ']' r))
    let entries ← atHeader (openElement key) path doc.entries
    .ok (⟨entries, path ++ [key]⟩, r)
  | s => do
    let (path, key, r) ← readKey s
    let r ← readLineEnd (← expect ']' r)
    let entries ← atHeader (openTable key) path doc.entries
    .ok (⟨entries, path ++ [key]⟩, r)

/-- One line or a key with a value of several lines, and the rest of the
text. -/
def readLine (doc : Document) (s : List Char) : Except Fault (Document × List Char) :=
  match skipSpace s with
  | '[' :: r => readHeader doc r
  | [] => .ok (doc, [])
  | '#' :: r => do .ok (doc, ← readLineEnd ('#' :: r))
  | r =>
    match newlineLength? r with
    | some n => .ok (doc, r.drop n)
    | none => readPair doc r

/-- The lines of a document, at most `n` of them. -/
def readLines : Nat → Document → List Char → Except Fault Document
  | _, doc, [] => .ok doc
  | 0, _, s => fail s
  | n + 1, doc, s => do
    let (doc, r) ← readLine doc s
    readLines n doc r

/-- The table of a document, which may start with a byte order mark. -/
def parse (text : String) : Except Fault (List (String × Toml)) := do
  let s :=
    match text.toList with
    | '\uFEFF' :: r => r
    | r => r
  return finish (← readLines (s.length + 1) {} s).entries

end Provision.Toml
