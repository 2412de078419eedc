import Mathlib.Data.List.Basic
import Provision.Mount.Table
import Provision.Proofs.Mount.Options

/-!
# Reading the mount table back

A table is written line by line and read back. What is read is what was written, as long as a reader
can tell the fields of a line apart; and the options are read just as they are written.

* `Text.words_field`, `Text.lines_flatMap`: a text is cut where it was put together.
* `Mount.Spells`: bytes that are read as others, whatever follows them.
* `Mount.Writes`: what is written for a character, be it escaped or not.
* `unescape_flatMap`: **a field is read as the text it was written for**, if each character is.
* `Mount.Tabular`: the entries of which a line can tell.
* `parseTable_lines`: a text with a line for each entry is read as these entries.
* `parseTable_renderTable`: **so a table is read back as it was written.**
* `MountEntry.shown`: an entry as a kernel shows it, which escapes the options as well.
* `parseTable_shown`: **the options of such an entry are read back if and only if nothing in them had
  to be escaped**, since what was escaped stays so.
-/

namespace Provision

namespace Text

/-! ### Words and lines -/

theorem words_append {c : Char} (hc : isBlank c = true) (s t : List Char) :
    words (s ++ c :: t) = words s ++ words t := by
  rw [words, List.splitOnP_append_cons s t hc, List.filter_append]
  rfl

theorem words_of_notBlank {s : List Char} (hne : s ≠ []) (hs : ∀ c ∈ s, isBlank c = false) :
    words s = [s] := by
  rw [words, List.splitOnP_eq_singleton hs]
  simp [hne]

/-- A field that ends at a blank is the first word. -/
theorem words_field {c : Char} {s : List Char} (hc : isBlank c = true) (hne : s ≠ [])
    (hs : ∀ c ∈ s, isBlank c = false) (t : List Char) : words (s ++ c :: t) = s :: words t := by
  rw [words_append hc, words_of_notBlank hne hs, List.singleton_append]

theorem lines_append {s : List Char} (hs : '\n' ∉ s) (t : List Char) :
    lines (s ++ '\n' :: t) = dropReturn s :: lines t := by
  have hne := List.splitOn_ne_nil '\n' t
  have hsplit : (s ++ '\n' :: t).splitOn '\n' = s :: t.splitOn '\n' := by
    rw [List.splitOn_append_cons_self, List.splitOn_eq_singleton hs, List.singleton_append]
  unfold lines
  dsimp only
  rw [hsplit, List.dropLast_cons_of_ne_nil hne, List.getLast?_cons_of_ne_nil hne, List.map_cons,
    List.cons_append]

/-- Lines that are written one after the other are the lines of the text. -/
theorem lines_flatMap {α : Type} {f : α → List Char} {xs : List α}
    (h : ∀ x ∈ xs, '\n' ∉ f x ∧ (f x).getLast? ≠ some '\r') :
    lines (xs.flatMap fun x => f x ++ ['\n']) = xs.map f := by
  induction xs with
  | nil => rfl
  | cons x rest ih =>
    obtain ⟨hx, hrest⟩ := List.forall_mem_cons.1 h
    have htext : ((x :: rest).flatMap fun x => f x ++ ['\n']) =
        f x ++ '\n' :: rest.flatMap fun x => f x ++ ['\n'] := by simp
    have hreturn : dropReturn (f x) = f x := by rw [dropReturn, if_neg hx.2]
    rw [htext, lines_append hx.1, hreturn, ih hrest, List.map_cons]

end Text

namespace Mount

open Text Utf8

/-! ### Fields -/

/-- Bytes that are read as others, whatever follows them. -/
def Spells (written meant : List Nat) : Prop :=
  ∀ r, unescapeAfter 0 (written ++ r) = meant ++ unescapeAfter 0 r

theorem Spells.append {w m w' m' : List Nat} (h : Spells w m) (h' : Spells w' m') :
    Spells (w ++ w') (m ++ m') := by
  intro r
  rw [List.append_assoc, h, h', List.append_assoc]

/-- Where there is no backslash, bytes are read as they are. -/
theorem spells_self {bytes : List Nat} (h : 92 ∉ bytes) : Spells bytes bytes := by
  intro r
  induction bytes with
  | nil => rfl
  | cons b rest ih =>
    obtain ⟨hb, hrest⟩ := List.ne_and_not_mem_of_not_mem_cons h
    have hplain : escapeAt? b (rest ++ r) = none := by
      unfold escapeAt?
      split
      · rw [if_neg (Ne.symm hb)]
      · rfl
    rw [List.cons_append, unescapeAfter, hplain]
    exact congrArg (b :: ·) (ih hrest)

/-- No other character has the byte of a backslash. -/
theorem backslash_notMem_encodeChar {c : Char} (hc : c ≠ '\\') : 92 ∉ encodeChar c := by
  have hn : c.toNat ≠ 92 := fun h => hc (Char.toNat_inj.1 h)
  unfold encodeChar
  dsimp only
  split
  · simpa using Ne.symm hn
  -- the bytes of a longer character are above all that stand for one alone
  · split
    · simp only [List.mem_cons, List.not_mem_nil, or_false]
      omega
    · split <;> simp only [List.mem_cons, List.not_mem_nil, or_false] <;> omega

/-- How the characters are written that are escaped in a field. A comma is, in an option alone. -/
def escapes : List (Char × List Char) :=
  [(' ', "\\040".toList), ('\t', "\\011".toList), ('\n', "\\012".toList), ('\\', "\\134".toList),
    (',', "\\054".toList)]

theorem length_escapes : ∀ x ∈ escapes, x.2.length = 4 := by decide

/-- What is written for a character is read as this character. -/
theorem spells_escapes : ∀ x ∈ escapes, Spells (encode x.2) (encodeChar x.1) := by
  unfold escapes
  simp only [List.forall_mem_cons]
  exact ⟨fun _ => rfl, fun _ => rfl, fun _ => rfl, fun _ => rfl, fun _ => rfl, by simp⟩

/-- What is written for a character ends neither a field nor an option. -/
theorem notBlank_escapes : ∀ x ∈ escapes, ∀ d ∈ x.2, isBlank d = false ∧ d ≠ ',' := by
  simp [escapes, isBlank]

/-- What is written for a character: it is escaped, or stands for itself unless it `must` be escaped. -/
def Writes (must : List Char) (c : Char) (written : List Char) : Prop :=
  (c, written) ∈ escapes ∨ (c ∉ must ∧ written = [c])

namespace Writes

variable {must : List Char} {c : Char} {written : List Char}

theorem ne_nil (h : Writes must c written) : written ≠ [] := by
  rcases h with h | ⟨-, rfl⟩
  · exact List.ne_nil_of_length_eq_add_one (length_escapes _ h)
  · exact List.cons_ne_nil c []

theorem spells (h : Writes must c written) (hmust : '\\' ∈ must) :
    Spells (encode written) (encodeChar c) := by
  rcases h with h | ⟨hc, rfl⟩
  · exact spells_escapes _ h
  · have hself : encode [c] = encodeChar c := by simp [encode]
    have hne : c ≠ '\\' := fun hback => hc (hback ▸ hmust)
    rw [hself]
    exact spells_self (backslash_notMem_encodeChar hne)

/-- No blank is written if every blank must be escaped. -/
theorem notBlank (h : Writes must c written) (hmust : isBlank c = true → c ∈ must) :
    ∀ d ∈ written, isBlank d = false := by
  rcases h with h | ⟨hc, rfl⟩
  · exact fun d hd => (notBlank_escapes _ h d hd).1
  · intro d hd
    rw [List.mem_singleton.1 hd, ← Bool.not_eq_true]
    exact mt hmust hc

theorem comma_notMem (h : Writes must c written) (hmust : ',' ∈ must) : ',' ∉ written := by
  rcases h with h | ⟨hc, rfl⟩
  · exact fun hcomma => (notBlank_escapes _ h _ hcomma).2 rfl
  · intro hcomma
    rw [List.mem_singleton] at hcomma
    exact hc (hcomma ▸ hmust)

end Writes

theorem writes_escapeChar (c : Char) : Writes [' ', '\t', '\n', '\\'] c (escapeChar c) := by
  unfold Writes escapeChar
  split_ifs with hspace htab hfeed hback
  · simp [escapes, hspace]
  · simp [escapes, htab]
  · simp [escapes, hfeed]
  · simp [escapes, hback]
  · simp [hspace, htab, hfeed, hback]

/-- **A field is read as the text it was written for**, if each of its characters is. -/
theorem unescape_flatMap {f : Char → List Char} (hf : ∀ c, Spells (encode (f c)) (encodeChar c))
    (s : String) : unescape (s.toList.flatMap f) = s := by
  have hspells : ∀ l : List Char, Spells (encode (l.flatMap f)) (encode l) := by
    intro l
    induction l with
    | nil => exact fun _ => rfl
    | cons c rest ih =>
      have hwritten : encode ((c :: rest).flatMap f) = encode (f c) ++ encode (rest.flatMap f) := by
        simp [encode]
      rw [hwritten]
      exact (hf c).append ih
  have hread := hspells s.toList []
  rw [List.append_nil, unescapeAfter, List.append_nil] at hread
  rw [unescape, hread, decode_encode, String.ofList_toList]

/-- A text that can be a field once it is escaped: all its blanks are spaces, tabs and line feeds. -/
def IsField (s : String) : Prop :=
  s ≠ "" ∧ ∀ c ∈ s.toList, isBlank c = true → c = ' ' ∨ c = '\t' ∨ c = '\n'

/-- A text that is a field as it is. -/
def IsWord (s : String) : Prop := s ≠ "" ∧ ∀ c ∈ s.toList, isBlank c = false

-- only the characters that the text has are tried, not all that there are
instance : DecidablePred IsField := fun s =>
  have := List.decidableBAll (fun c => isBlank c = true → c = ' ' ∨ c = '\t' ∨ c = '\n') s.toList
  inferInstanceAs (Decidable (_ ∧ _))

instance : DecidablePred IsWord := fun s =>
  have := List.decidableBAll (isBlank · = false) s.toList
  inferInstanceAs (Decidable (_ ∧ _))

/-- A text without blanks is made of such a text. -/
theorem flatMap_field {f : Char → List Char} {s : String} (hs : s ≠ "") (hne : ∀ c, f c ≠ [])
    (hf : ∀ c ∈ s.toList, ∀ d ∈ f c, isBlank d = false) :
    s.toList.flatMap f ≠ [] ∧ ∀ d ∈ s.toList.flatMap f, isBlank d = false := by
  constructor
  · obtain ⟨c, rest, hchars⟩ := List.exists_cons_of_ne_nil (mt String.toList_eq_nil_iff.1 hs)
    rw [hchars, List.flatMap_cons]
    exact List.append_ne_nil_of_left_ne_nil (hne c) _
  · intro d hd
    obtain ⟨c, hc, hd⟩ := List.mem_flatMap.1 hd
    exact hf c hc d hd

theorem unescape_escape (s : String) : unescape (escape s) = s :=
  unescape_flatMap (fun c => (writes_escapeChar c).spells (by decide)) s

/-- An escaped text is a field. -/
theorem field_escape {s : String} (hs : IsField s) :
    escape s ≠ [] ∧ ∀ c ∈ escape s, isBlank c = false := by
  refine flatMap_field hs.1 (fun c => (writes_escapeChar c).ne_nil) fun c hc => ?_
  refine (writes_escapeChar c).notBlank fun hblank => ?_
  rcases hs.2 c hc hblank with rfl | rfl | rfl <;> decide

/-! ### Lines -/

/-- Source, target and type of an entry can be fields, and it has options. -/
structure Headed (e : MountEntry) : Prop where
  source : IsField e.source
  target : IsField e.target.text
  fstype : IsWord e.fstype
  optioned : e.options ≠ []

/-- An entry of which a line can tell. -/
structure Tabular (e : MountEntry) : Prop extends Headed e where
  options : ∀ o ∈ e.options, IsWord o ∧ ',' ∉ o.toList

/-- The line of an entry, without its end. -/
def entryLine (e : MountEntry) : List Char :=
  escape e.source ++ ' ' :: (escape e.target.text ++ ' ' :: (e.fstype.toList ++ ' ' ::
    ((",".intercalate e.options).toList ++ " 0 0".toList)))

variable {e : MountEntry}

theorem renderEntry_eq (e : MountEntry) : renderEntry e = entryLine e ++ ['\n'] := by
  simp [renderEntry, entryLine]

theorem mem_intercalate {c d : Char} {pieces : List (List Char)} (h : d ∈ [c].intercalate pieces) :
    d = c ∨ ∃ piece ∈ pieces, d ∈ piece := by
  induction pieces with
  | nil => cases h
  | cons piece rest ih =>
    cases rest with
    | nil =>
      rw [List.intercalate_singleton] at h
      exact .inr ⟨piece, List.mem_cons_self, h⟩
    | cons next rest =>
      rw [List.intercalate_cons_cons, List.append_assoc, List.mem_append, List.mem_append,
        List.mem_singleton] at h
      rcases h with h | h | h
      · exact .inr ⟨piece, List.mem_cons_self, h⟩
      · exact .inl h
      · rcases ih h with h | ⟨p, hp, h⟩
        · exact .inl h
        · exact .inr ⟨p, List.mem_cons_of_mem _ hp, h⟩

/-- The options of an entry make one field, from which they can be told. -/
theorem Tabular.field (h : Tabular e) :
    (",".intercalate e.options).toList ≠ [] ∧
      (∀ c ∈ (",".intercalate e.options).toList, isBlank c = false) ∧
      (",".intercalate e.options).toList.splitOn ',' = e.options.map String.toList := by
  have htext : (",".intercalate e.options).toList = [','].intercalate (e.options.map String.toList) :=
    String.toList_intercalate
  have hsplit : (",".intercalate e.options).toList.splitOn ',' = e.options.map String.toList := by
    rw [htext]
    refine List.splitOn_intercalate ',' (fun l hl => ?_) (by simpa using h.optioned)
    obtain ⟨o, ho, rfl⟩ := List.mem_map.1 hl
    exact (h.options o ho).2
  refine ⟨fun hnil => ?_, fun c hc => ?_, hsplit⟩
  · -- an empty field would be one empty option
    rw [hnil, List.splitOn_nil] at hsplit
    obtain ⟨o, rest, hoptions⟩ := List.exists_cons_of_ne_nil h.optioned
    have ho := (h.options o (hoptions ▸ List.mem_cons_self)).1.1
    rw [hoptions, List.map_cons, List.cons.injEq] at hsplit
    exact ho (String.toList_eq_nil_iff.1 hsplit.1.symm)
  · rw [htext] at hc
    rcases mem_intercalate hc with rfl | ⟨l, hl, hc⟩
    · decide
    · obtain ⟨o, ho, rfl⟩ := List.mem_map.1 hl
      exact (h.options o ho).1.2 c hc

/-- **The line of an entry is read as this entry.** -/
theorem ofFields_entryLine (h : Tabular e) : ofFields (words (entryLine e)) = some e := by
  have hblank : isBlank ' ' = true := by decide
  obtain ⟨hsource, hsource'⟩ := field_escape h.source
  obtain ⟨htarget, htarget'⟩ := field_escape h.target
  obtain ⟨hoptions, hoptions', hsplit⟩ := h.field
  have hfstype : e.fstype.toList ≠ [] := mt String.toList_eq_nil_iff.1 h.fstype.1
  have hrest : " 0 0".toList = ' ' :: "0 0".toList := rfl
  rw [entryLine, words_field hblank hsource hsource', words_field hblank htarget htarget',
    words_field hblank hfstype h.fstype.2, hrest, words_field hblank hoptions hoptions']
  have hread : e.options = (e.options.map String.toList).map .ofList := by
    simp [Function.comp_def]
  unfold ofFields
  dsimp only
  rw [unescape_escape, unescape_escape, hsplit, String.ofList_toList, ← hread]

/-- A line that is not cut, and from which an entry is read. -/
structure ReadsAs (line : List Char) (e : MountEntry) : Prop where
  whole : '\n' ∉ line
  ending : line.getLast? ≠ some '\r'
  read : ofFields (words line) = some e

theorem Tabular.readsAs (h : Tabular e) : ReadsAs (entryLine e) e := by
  have hescape : ∀ s, IsField s → '\n' ∉ escape s := fun s hs hc =>
    absurd ((field_escape hs).2 _ hc) (by decide)
  have hsource := hescape _ h.source
  have htarget := hescape _ h.target
  have hfstype : '\n' ∉ e.fstype.toList := fun hc => absurd (h.fstype.2 _ hc) (by decide)
  have hoptions : '\n' ∉ (",".intercalate e.options).toList := fun hc =>
    absurd (h.field.2.1 _ hc) (by decide)
  refine ⟨?_, ?_, ofFields_entryLine h⟩
  · simp [entryLine, hsource, htarget, hfstype, hoptions, -String.toList_intercalate]
  · have hend : " 0 0".toList = " 0 ".toList ++ ['0'] := rfl
    rw [entryLine, hend]
    simp only [← List.append_assoc, ← List.cons_append, List.getLast?_concat]
    decide

/-- **A text with a line for each entry is read as these entries.** -/
theorem parseTable_lines {α : Type} {line : α → List Char} {entry : α → MountEntry} {xs : List α}
    (h : ∀ x ∈ xs, ReadsAs (line x) (entry x)) :
    parseTable (.ofList (xs.flatMap fun x => line x ++ ['\n'])) = xs.map entry := by
  unfold parseTable
  rw [String.toList_ofList, lines_flatMap fun x hx => ⟨(h x hx).whole, (h x hx).ending⟩,
    List.filterMap_map]
  exact List.filterMap_eq_map_iff_forall_eq_some.2 fun x hx => (h x hx).read

theorem renderTable_eq (entries : List MountEntry) :
    renderTable entries = .ofList (entries.flatMap fun e => entryLine e ++ ['\n']) := by
  rw [renderTable, funext renderEntry_eq]

/-- **A mount table is read back as it was written**: the same entries, in the same order. Source and
target may hold any characters but blanks that are not escaped. -/
theorem parseTable_renderTable {entries : List MountEntry} (h : ∀ e ∈ entries, Tabular e) :
    parseTable (renderTable entries) = entries := by
  have hread : ∀ e ∈ entries, ReadsAs (entryLine e) (id e) := fun e he => (h e he).readsAs
  rw [renderTable_eq, parseTable_lines hread, List.map_id]

/-- A share whose names hold blanks, backslashes before digits and at the end, and more than ASCII. -/
def share : MountEntry :=
  ⟨"nas:/\\040 käse\\", ⟨"/mnt/\t日本\n\\"⟩, "nfs4", ["rw", "vers=4.2"]⟩

theorem parseTable_renderTable_share :
    (∀ e ∈ [share, MountEntry.shownScratch], Tabular e) ∧
      renderTable [share] = "nas:/\\134040\\040käse\\134 /mnt/\\011日本\\012\\134 nfs4 rw,vers=4.2 0 0\n" ∧
      parseTable (renderTable [share, MountEntry.shownScratch]) = [share, MountEntry.shownScratch] := by
  have htabular : ∀ e ∈ [share, MountEntry.shownScratch], Tabular e := by
    intro e he
    rcases List.mem_cons.1 he with rfl | he
    · exact ⟨⟨by decide, by decide, by decide, by decide⟩, by decide⟩
    · rw [List.mem_singleton.1 he]
      exact ⟨⟨by decide, by decide, by decide, by decide⟩, by decide⟩
  exact ⟨htabular, by decide, parseTable_renderTable htabular⟩

/-! ### Options that are escaped -/

/-- The characters that a kernel escapes in an option. -/
def escaped : List Char := [' ', '\t', '\n', '\\', ',']

/-- How a kernel shows a character of an option. A comma would end the option. -/
def shownChar (c : Char) : List Char := if c = ',' then "\\054".toList else escapeChar c

/-- How a kernel shows an option. -/
def shownOption (o : String) : String := .ofList (o.toList.flatMap shownChar)

end Mount

/-- An entry as a kernel shows it. -/
def MountEntry.shown (e : MountEntry) : MountEntry :=
  { e with options := e.options.map Mount.shownOption }

namespace Mount

open Text Utf8

/-- An entry whose options may hold characters that are escaped. -/
structure Showable (e : MountEntry) : Prop extends Headed e where
  options : ∀ o ∈ e.options, IsField o

variable {e : MountEntry} {o : String}

theorem writes_shownChar (c : Char) : Writes escaped c (shownChar c) := by
  unfold shownChar
  split_ifs with hcomma
  · exact .inl (by simp [escapes, hcomma])
  · refine (writes_escapeChar c).imp_right fun h => ⟨?_, h.2⟩
    simpa [escaped, hcomma] using h.1

theorem shownChar_of_notMem {c : Char} (h : c ∉ escaped) : shownChar c = [c] := by
  have hfst : ∀ x ∈ escapes, x.1 ∈ escaped := by decide
  rcases writes_shownChar c with hescapes | hself
  · exact absurd (hfst _ hescapes) h
  · exact hself.2

/-- A character that is escaped takes four. -/
theorem length_shownChar {c : Char} (h : c ∈ escaped) : (shownChar c).length = 4 := by
  rcases writes_shownChar c with hescapes | hself
  · exact length_escapes _ hescapes
  · exact absurd h hself.1

/-- What is shown is no shorter, and longer if anything in it is escaped. -/
theorem length_flatMap_shownChar (l : List Char) : l.length ≤ (l.flatMap shownChar).length ∧
    ((∃ c ∈ l, c ∈ escaped) → l.length < (l.flatMap shownChar).length) := by
  induction l with
  | nil => simp
  | cons c rest ih =>
    obtain ⟨hle, hlt⟩ := ih
    rw [List.flatMap_cons, List.length_append, List.length_cons]
    by_cases hc : c ∈ escaped
    · rw [length_shownChar hc]
      omega
    · rw [shownChar_of_notMem hc, List.length_singleton]
      refine ⟨by omega, fun hany => ?_⟩
      obtain ⟨d, hd, hescaped⟩ := hany
      rcases List.mem_cons.1 hd with rfl | hd
      · exact absurd hescaped hc
      · have := hlt ⟨d, hd, hescaped⟩
        omega

/-- **An option is shown as it is if and only if it has no character that is escaped.** -/
theorem shownOption_eq_iff : shownOption o = o ↔ ∀ c ∈ o.toList, c ∉ escaped := by
  rw [← String.toList_inj, shownOption, String.toList_ofList]
  constructor
  · intro h c hc hescaped
    have hlt := (length_flatMap_shownChar o.toList).2 ⟨c, hc, hescaped⟩
    rw [h] at hlt
    omega
  · intro h
    generalize o.toList = l at h
    induction l with
    | nil => rfl
    | cons c rest ih =>
      obtain ⟨hc, hrest⟩ := List.forall_mem_cons.1 h
      rw [List.flatMap_cons, shownChar_of_notMem hc, ih hrest, List.singleton_append]

/-- Nothing of an option is lost, as it could be decoded. -/
theorem unescape_shownOption (o : String) : unescape (shownOption o).toList = o := by
  rw [shownOption, String.toList_ofList]
  exact unescape_flatMap (fun c => (writes_shownChar c).spells (by decide)) o

/-- No blank and no comma is shown, if there are none in the option but those that are escaped. -/
theorem isWord_shownOption (h : IsField o) : IsWord (shownOption o) ∧ ',' ∉ (shownOption o).toList := by
  have hblank : ∀ c ∈ o.toList, ∀ d ∈ shownChar c, isBlank d = false := by
    refine fun c hc => (writes_shownChar c).notBlank fun hblank => ?_
    rcases h.2 c hc hblank with rfl | rfl | rfl <;> decide
  have hfield := flatMap_field h.1 (fun c => (writes_shownChar c).ne_nil) hblank
  unfold IsWord
  rw [shownOption, String.toList_ofList]
  refine ⟨⟨fun hnil => ?_, hfield.2⟩, fun hcomma => ?_⟩
  · exact hfield.1 (String.ofList_eq_empty_iff.1 hnil)
  · obtain ⟨c, -, hd⟩ := List.mem_flatMap.1 hcomma
    exact (writes_shownChar c).comma_notMem (by decide) hd

theorem tabular_shown (h : Showable e) : Tabular e.shown := by
  refine ⟨⟨h.source, h.target, h.fstype, ?_⟩, fun shown hshown => ?_⟩
  · simpa [MountEntry.shown] using h.optioned
  · obtain ⟨o, ho, rfl⟩ := List.mem_map.1 hshown
    exact isWord_shownOption (h.options o ho)

/-- A size has no blank and no comma. -/
theorem Denotes.notBlank {value : String} {n : Nat} (h : Denotes value n) :
    ∀ c ∈ value.toList, isBlank c = false ∧ c ≠ ',' := by
  obtain @⟨digits, unit, factor, -, hdigits, hunit⟩ := h
  have hunits : ∀ u ∈ unitFactors, ∀ c ∈ u.1.toList, isBlank c = false ∧ c ≠ ',' := by
    simp [unitFactors, isBlank]
  intro c hc
  rw [String.toList_append, List.mem_append] at hc
  rcases hc with hc | hc
  · have hdigit : 48 ≤ c.toNat ∧ c.toNat ≤ 57 := Char.isDigit_iff_toNat.1 (hdigits c hc)
    refine ⟨?_, fun hcomma => ?_⟩
    · simp only [isBlank, Bool.or_eq_false_iff, Bool.and_eq_false_iff, decide_eq_false_iff_not,
        beq_eq_false_iff_ne]
      omega
    · rw [hcomma] at hdigit
      exact absurd hdigit (by decide)
  · exact hunits _ hunit c hc

/-- **An option with a blank or a comma has no counterpart** among those that are shown, unless any
value would do. -/
theorem not_counterpart_shown {wanted : String} (ho : IsField o)
    (hbreak : ∃ c ∈ wanted.toList, isBlank c = true ∨ c = ',')
    (hlast : wanted.toList.getLast? ≠ some '%') : ¬Counterpart (shownOption o) wanted := by
  obtain ⟨⟨-, hblank⟩, hcomma⟩ := isWord_shownOption ho
  have hshown : ∀ c ∈ (shownOption o).toList, ¬(isBlank c = true ∨ c = ',') := by
    rintro c hc (h | rfl)
    · rw [hblank c hc] at h
      cases h
    · exact hcomma hc
  obtain ⟨c, hc, hbreak⟩ := hbreak
  intro h
  generalize shownOption o = shown at h hshown
  cases h with
  | same => exact hshown c hc hbreak
  | @percentage key shown want _ =>
    have hend : (key ++ "=" ++ (want ++ "%")).toList = (key.toList ++ '=' :: want.toList) ++ ['%'] := by
      simp
    rw [hend, List.getLast?_concat] at hlast
    exact hlast rfl
  | @size key shown want n hkey _ hwant _ =>
    -- it can be neither in the key, which is shown, nor in the size
    rw [String.toList_append, String.toList_append, List.mem_append, List.mem_append] at hc
    rcases hc with (hc | hc) | hc
    · exact hshown c (by simp [hc]) hbreak
    · obtain rfl := List.mem_singleton.1 hc
      revert hbreak
      decide
    · obtain ⟨hnot, hne⟩ := hwant.notBlank c hc
      rw [hnot] at hbreak
      exact hne (hbreak.resolve_left (by decide))

theorem shown_eq_iff : e.shown = e ↔ ∀ o ∈ e.options, ∀ c ∈ o.toList, c ∉ escaped := by
  have hoptions : e.shown = e ↔ e.options.map shownOption = e.options.map id := by
    rw [List.map_id]
    exact ⟨congrArg MountEntry.options, fun h => congrArg (MountEntry.mk e.source e.target e.fstype) h⟩
  rw [hoptions, List.map_inj_left]
  exact forall₂_congr fun o _ => shownOption_eq_iff

/-! ### Whether it is what was asked for -/

variable {resolve : Path → Option Path} {spec : MountSpec}

/-- Options in which nothing is escaped are found. -/
theorem satisfies_shown (hsource : spec.source = e.source) (htarget : spec.target = e.target)
    (hfstype : spec.fstype = e.fstype) (hoptions : spec.options ⊆ e.options)
    (hplain : ∀ o ∈ spec.options, ∀ c ∈ o.toList, c ∉ escaped) : e.shown.satisfies resolve spec = true := by
  refine MountEntry.satisfies_iff.2 ⟨?_, .inr ⟨?_, .inr hfstype.symm, fun o ho _ => ?_⟩⟩
  · rw [htarget]
    exact Bool.or_eq_true_iff.2 (.inl (Path.same_refl _))
  · rw [hsource]
    exact Bool.or_eq_true_iff.2 (.inl (beq_self_eq_true e.source))
  · have hshown : o ∈ e.shown.options :=
      List.mem_map.2 ⟨o, hoptions ho, shownOption_eq_iff.2 (hplain o ho)⟩
    exact ⟨o, hshown, .same o⟩

/-- An option in which a blank or a comma is escaped is missed. -/
theorem not_satisfies_shown (h : Showable e) (hbind : spec.isBind = false) {wanted : String}
    (hwanted : wanted ∈ spec.options) (huser : isUserspace wanted = false)
    (hlast : wanted.toList.getLast? ≠ some '%') (hbreak : ∃ c ∈ wanted.toList, isBlank c = true ∨ c = ',') :
    e.shown.satisfies resolve spec = false := by
  rw [Bool.eq_false_iff]
  intro hsat
  rcases (MountEntry.satisfies_iff.1 hsat).2 with hbind' | ⟨-, -, hall⟩
  · rw [hbind] at hbind'
    cases hbind'
  · obtain ⟨shown, hshown, hmatch⟩ := hall wanted hwanted huser
    obtain ⟨o, ho, rfl⟩ := List.mem_map.1 hshown
    exact not_counterpart_shown (h.options o ho) hbreak hlast hmatch

/-- **Options are read as they are shown.** A table whose entries may hold blanks, backslashes and
commas in their options is read back as these entries if and only if none of them does: the options
stay as the kernel shows them, though they could be decoded. An entry that is read so satisfies what
was asked for, with the same source, target and type, if nothing in the requested options had to be
escaped; and unless it is a bind mount, it does not if a blank or a comma had to be, in an option that
a kernel shows and of which more than the key counts. -/
theorem parseTable_shown {entries : List MountEntry} (h : ∀ e ∈ entries, Showable e) :
    parseTable (renderTable (entries.map .shown)) = entries.map .shown ∧
    (∀ o, unescape (shownOption o).toList = o) ∧
    (parseTable (renderTable (entries.map .shown)) = entries ↔
      ∀ e ∈ entries, ∀ o ∈ e.options, ∀ c ∈ o.toList, c ∉ escaped) ∧
    ∀ e ∈ entries, ∀ (resolve : Path → Option Path) (spec : MountSpec),
      spec.source = e.source → spec.target = e.target → spec.fstype = e.fstype →
      spec.options ⊆ e.options →
      ((∀ o ∈ spec.options, ∀ c ∈ o.toList, c ∉ escaped) → e.shown.satisfies resolve spec = true) ∧
      (spec.isBind = false → ∀ o ∈ spec.options, isUserspace o = false → o.toList.getLast? ≠ some '%' →
        (∃ c ∈ o.toList, isBlank c = true ∨ c = ',') → e.shown.satisfies resolve spec = false) := by
  have hread : parseTable (renderTable (entries.map .shown)) = entries.map .shown := by
    rw [renderTable_eq, List.flatMap_map]
    exact parseTable_lines fun e he => (tabular_shown (h e he)).readsAs
  have hrestored : entries.map MountEntry.shown = entries ↔
      ∀ e ∈ entries, ∀ o ∈ e.options, ∀ c ∈ o.toList, c ∉ escaped := by
    have hid : entries.map MountEntry.shown = entries ↔ entries.map MountEntry.shown = entries.map id := by
      rw [List.map_id]
    rw [hid, List.map_inj_left]
    exact forall₂_congr fun e _ => shown_eq_iff
  refine ⟨hread, unescape_shownOption, ?_,
    fun e he resolve spec hsource htarget hfstype hoptions => ⟨?_, ?_⟩⟩
  · rw [hread]
    exact hrestored
  · exact satisfies_shown hsource htarget hfstype hoptions
  · intro hbind o ho huser hlast hbreak
    exact not_satisfies_shown (h e he) hbind ho huser hlast hbreak

/-- An overlay of a directory whose name has a blank. -/
def overlay : MountEntry := ⟨"overlay", ⟨"/merged"⟩, "overlay", ["rw", "lowerdir=/srv/my data"]⟩

/-- The blank stays escaped, so that only what was asked for without it is found. -/
theorem parseTable_shown_overlay : (∀ e ∈ [overlay], Showable e) ∧
    parseTable (renderTable [overlay.shown]) ≠ [overlay] ∧
    overlay.shown.satisfies (fun _ => none) ⟨"overlay", ⟨"/merged"⟩, "overlay", ["rw"]⟩ = true ∧
    overlay.shown.satisfies (fun _ => none)
      ⟨"overlay", ⟨"/merged"⟩, "overlay", ["rw", "lowerdir=/srv/my data"]⟩ = false := by
  have hshowable : ∀ e ∈ [overlay], Showable e := by
    intro e he
    rw [List.mem_singleton.1 he]
    exact ⟨⟨by decide, by decide, by decide, by decide⟩, by decide⟩
  obtain ⟨-, -, hrestored, hsatisfies⟩ := parseTable_shown hshowable
  have hspec := fun options => hsatisfies overlay List.mem_cons_self (fun _ => none)
    ⟨"overlay", ⟨"/merged"⟩, "overlay", options⟩ rfl rfl rfl
  refine ⟨hshowable, fun hread => ?_, (hspec _ (by decide)).1 (by simp [escaped]), ?_⟩
  · -- the blank of the second option had to be escaped
    exact hrestored.1 hread overlay List.mem_cons_self "lowerdir=/srv/my data" (by decide) ' '
      (by decide) (by decide)
  · exact (hspec _ (by decide)).2 (by decide) "lowerdir=/srv/my data" (by decide) (by decide) (by decide)
      ⟨' ', by decide, .inl (by decide)⟩

/-- What was asked for is not found in what is read, though it would be if it were decoded. -/
theorem parseTable_keeps_escapes :
    renderTable [overlay.shown] = "overlay /merged overlay rw,lowerdir=/srv/my\\040data 0 0\n" ∧
      parseTable "overlay /merged overlay rw,lowerdir=/srv/my\\040data 0 0\n" =
        [⟨"overlay", ⟨"/merged"⟩, "overlay", ["rw", "lowerdir=/srv/my\\040data"]⟩] ∧
      MountEntry.satisfies (fun _ => none)
        ⟨"overlay", ⟨"/merged"⟩, "overlay", ["rw", "lowerdir=/srv/my\\040data"]⟩
        ⟨"overlay", ⟨"/merged"⟩, "overlay", ["lowerdir=/srv/my data"]⟩ = false ∧
      overlay.satisfies (fun _ => none)
        ⟨"overlay", ⟨"/merged"⟩, "overlay", ["lowerdir=/srv/my data"]⟩ = true :=
  ⟨by decide, by decide, by decide, by decide⟩

end Mount

end Provision
