import Mathlib.Data.List.Nodup
import Provision.Proofs.Faults
import Provision.Toml.Reader

/-!
# No key twice

* `Toml.Distinct`: no table in a value has a key twice.
* `Tree.Distinct`, `DistinctEntries`: the same for what is being read.
* `insertDotted_distinct`, `atHeader_distinct`: what is put into a table keeps its keys apart.
* `read_distinct`, `readLine_distinct`: so does reading a value, and a line.
* `parse_distinct`: **in a document that was read no table has a key twice.**
-/

namespace Provision.Toml

/-- No table in the value has a key twice. -/
inductive Distinct : Toml → Prop
  | string (s : String) : Distinct (.string s)
  | int (n : Int) : Distinct (.int n)
  | decimal (literal : String) : Distinct (.decimal literal)
  | bool (b : Bool) : Distinct (.bool b)
  | moment (text : String) : Distinct (.moment text)
  | array {items : List Toml} (below : ∀ v ∈ items, Distinct v) : Distinct (.array items)
  | table {entries : List (String × Toml)} (keys : (entries.map (·.1)).Nodup)
    (below : ∀ e ∈ entries, Distinct e.2) : Distinct (.table entries)

/-- No table in what stands at a key has a key twice. -/
inductive Tree.Distinct : Tree → Prop
  | value {v : Toml} (h : v.Distinct) : Tree.Distinct (.value v)
  | table {origin : Origin} {entries : Entries} (keys : (entries.map (·.1)).Nodup)
    (below : ∀ e ∈ entries, Tree.Distinct e.2) : Tree.Distinct (.table origin entries)
  | tables {before : List Entries} {last : Entries}
    (keys : ∀ t ∈ before ++ [last], (t.map (·.1)).Nodup)
    (below : ∀ t ∈ before ++ [last], ∀ e ∈ t, Tree.Distinct e.2) : Tree.Distinct (.tables before last)

/-- No key twice in the entries of a table, or below them. -/
structure DistinctEntries (entries : Entries) : Prop where
  keys : (entries.map (·.1)).Nodup
  below : ∀ e ∈ entries, e.2.Distinct

theorem DistinctEntries.nil : DistinctEntries [] := ⟨List.nodup_nil, nofun⟩

theorem Tree.distinct_table_iff {origin : Origin} {entries : Entries} :
    (Tree.table origin entries).Distinct ↔ DistinctEntries entries :=
  ⟨fun (.table keys below) => ⟨keys, below⟩, fun h => .table h.keys h.below⟩

theorem Tree.distinct_tables_iff {before : List Entries} {last : Entries} :
    (Tree.tables before last).Distinct ↔ ∀ t ∈ before ++ [last], DistinctEntries t :=
  ⟨fun (.tables keys below) t ht => ⟨keys t ht, below t ht⟩,
    fun h => .tables (fun t ht => (h t ht).keys) fun t ht => (h t ht).below⟩

section Tables

variable {key : String} {t : Tree} {entries entries' : Entries}

theorem mem_of_mem_assign {e : String × Tree} :
    ∀ {entries : Entries}, e ∈ assign key t entries → e = (key, t) ∨ e ∈ entries
  | [], h => .inl (List.mem_singleton.1 h)
  | (k, v) :: rest, h => by
    unfold assign at h
    split at h
    · rename_i hk
      rcases List.mem_cons.1 h with rfl | h
      · exact .inl (by rw [hk])
      · exact .inr (List.mem_cons_of_mem _ h)
    · rcases List.mem_cons.1 h with rfl | h
      · exact .inr List.mem_cons_self
      · exact (mem_of_mem_assign h).imp_right (List.mem_cons_of_mem _)

theorem keys_assign_nodup : ∀ {entries : Entries}, (entries.map (·.1)).Nodup →
    ((assign key t entries).map (·.1)).Nodup
  | [], _ => List.nodup_singleton _
  | (k, v) :: rest, h => by
    rw [List.map_cons, List.nodup_cons] at h
    unfold assign
    split
    · exact List.nodup_cons.2 h
    · rename_i hk
      refine List.nodup_cons.2 ⟨fun hmem => ?_, keys_assign_nodup h.2⟩
      obtain ⟨e, he, hek⟩ := List.mem_map.1 hmem
      rcases mem_of_mem_assign he with rfl | he
      · exact hk hek.symm
      · exact h.1 (List.mem_map.2 ⟨e, he, hek⟩)

theorem DistinctEntries.assign (h : DistinctEntries entries) (ht : t.Distinct) :
    DistinctEntries (assign key t entries) where
  keys := keys_assign_nodup h.keys
  below e he := (mem_of_mem_assign he).elim (fun heq => heq ▸ ht) (h.below e)

theorem DistinctEntries.lookup (h : DistinctEntries entries) (hlookup : entries.lookup key = some t) :
    t.Distinct := by
  obtain ⟨before, after, rfl, -⟩ := List.lookup_eq_some_iff.1 hlookup
  exact h.below (key, t) (List.mem_append_right _ List.mem_cons_self)

/-- What stands at a key is changed to something without a key twice, if it can be made. -/
theorem DistinctEntries.assign_made (h : DistinctEntries entries) {made : Except Fault Entries}
    {wrap : Entries → Tree} (hmade : ∀ {sub}, made = .ok sub → (wrap sub).Distinct)
    (hok : (made >>= fun sub => .ok (Toml.assign key (wrap sub) entries)) = .ok entries') :
    DistinctEntries entries' := by
  obtain ⟨sub, hsub, hok⟩ := bind_eq_ok.1 hok
  obtain rfl := Except.ok.inj hok
  exact h.assign (hmade hsub)

theorem insertDotted_distinct {v : Toml} (hv : v.Distinct) : ∀ {path : List String}
    {entries entries' : Entries}, DistinctEntries entries →
    insertDotted key v path entries = .ok entries' → DistinctEntries entries' := by
  intro path
  induction path with
  | nil =>
    intro entries entries' h hins
    unfold insertDotted at hins
    split at hins
    · cases hins
    · obtain rfl := Except.ok.inj hins
      exact h.assign (.value hv)
  | cons k path ih =>
    intro entries entries' h hins
    unfold insertDotted at hins
    split at hins
    · exact h.assign_made (fun hsub => Tree.distinct_table_iff.2 (ih .nil hsub)) hins
    · rename_i sub hlookup
      have hold := Tree.distinct_table_iff.1 (h.lookup hlookup)
      exact h.assign_made (fun hsub => Tree.distinct_table_iff.2 (ih hold hsub)) hins
    · rename_i sub hlookup
      have hold := Tree.distinct_table_iff.1 (h.lookup hlookup)
      split at hins
      · cases hins
      · exact h.assign_made (fun hsub => Tree.distinct_table_iff.2 (ih hold hsub)) hins
    · cases hins

theorem atHeader_distinct {f : Entries → Except Fault Entries}
    (hf : ∀ {entries entries'}, DistinctEntries entries → f entries = .ok entries' →
      DistinctEntries entries') :
    ∀ {path : List String} {entries entries' : Entries}, DistinctEntries entries →
    atHeader f path entries = .ok entries' → DistinctEntries entries' := by
  intro path
  induction path with
  | nil => exact fun h hat => hf h hat
  | cons k path ih =>
    intro entries entries' h hat
    unfold atHeader at hat
    split at hat
    · exact h.assign_made (fun hsub => Tree.distinct_table_iff.2 (ih .nil hsub)) hat
    · rename_i origin sub hlookup
      have hold := Tree.distinct_table_iff.1 (h.lookup hlookup)
      exact h.assign_made (fun hsub => Tree.distinct_table_iff.2 (ih hold hsub)) hat
    · rename_i before last hlookup
      have hold := Tree.distinct_tables_iff.1 (h.lookup hlookup)
      refine h.assign_made (fun hsub => Tree.distinct_tables_iff.2 fun t ht => ?_) hat
      rcases List.mem_append.1 ht with hbefore | hlast
      · exact hold t (List.mem_append_left _ hbefore)
      · rw [List.mem_singleton.1 hlast]
        exact ih (hold last (List.mem_append_right _ (List.mem_singleton_self _))) hsub
    · cases hat

theorem openTable_distinct (h : DistinctEntries entries) (hopen : openTable key entries = .ok entries') :
    DistinctEntries entries' := by
  unfold openTable at hopen
  split at hopen
  · obtain rfl := Except.ok.inj hopen
    exact h.assign (Tree.distinct_table_iff.2 .nil)
  · rename_i sub hlookup
    obtain rfl := Except.ok.inj hopen
    exact h.assign (Tree.distinct_table_iff.2 (Tree.distinct_table_iff.1 (h.lookup hlookup)))
  · cases hopen

theorem openElement_distinct (h : DistinctEntries entries)
    (hopen : openElement key entries = .ok entries') : DistinctEntries entries' := by
  unfold openElement at hopen
  split at hopen
  · obtain rfl := Except.ok.inj hopen
    exact h.assign (Tree.distinct_tables_iff.2 fun t ht => List.mem_singleton.1 ht ▸ .nil)
  · rename_i before last hlookup
    obtain rfl := Except.ok.inj hopen
    have hold := Tree.distinct_tables_iff.1 (h.lookup hlookup)
    refine h.assign (Tree.distinct_tables_iff.2 fun t ht => ?_)
    rcases List.mem_append.1 ht with ht | ht
    · exact hold t ht
    · exact List.mem_singleton.1 ht ▸ .nil
  · cases hopen

theorem finish_eq : ∀ entries : Entries, finish entries = entries.map fun e => (e.1, e.2.finish)
  | [] => by simp [finish]
  | e :: rest => by simp [finish, finish_eq rest]

theorem finishAll_eq : ∀ tables : List Entries, finishAll tables = tables.map fun t => .table (finish t)
  | [] => by simp [finishAll]
  | t :: rest => by simp [finishAll, finishAll_eq rest]

theorem distinct_table (hkeys : (entries.map (·.1)).Nodup)
    (hbelow : ∀ e ∈ entries, e.2.finish.Distinct) : (Toml.table (finish entries)).Distinct := by
  rw [finish_eq]
  refine .table (by simpa [Function.comp_def] using hkeys) fun e he => ?_
  obtain ⟨e', he', rfl⟩ := List.mem_map.1 he
  exact hbelow e' he'

theorem Tree.Distinct.finish (h : t.Distinct) : t.finish.Distinct := by
  induction h with
  | value h => simpa [Tree.finish] using h
  | table keys _ ih =>
    rw [Tree.finish]
    exact distinct_table keys ih
  | @tables before last keys _ ih =>
    have hlast := List.mem_append_right before (List.mem_singleton_self last)
    rw [Tree.finish, finishAll_eq]
    refine .array fun v hv => ?_
    rcases List.mem_append.1 hv with hv | hv
    · obtain ⟨t, ht, rfl⟩ := List.mem_map.1 hv
      exact distinct_table (keys t (List.mem_append_left _ ht)) (ih t (List.mem_append_left _ ht))
    · obtain rfl := List.mem_singleton.1 hv
      exact distinct_table (keys _ hlast) (ih _ hlast)

theorem DistinctEntries.finish (h : DistinctEntries entries) : (Toml.table (finish entries)).Distinct :=
  distinct_table h.keys fun e he => (h.below e he).finish

end Tables

section Values

variable {s r : List Char} {v : Toml}

theorem ofWhole?_distinct {negative : Bool} {n : Nat} (h : ofWhole? negative n = some v) : v.Distinct := by
  unfold ofWhole? at h
  split at h <;> split at h <;> cases h <;> exact .int _

theorem readInt?_distinct (h : readInt? s = some (v, r)) : v.Distinct := by
  have hbased : ∀ {base s}, readBased? base s = some (v, r) → v.Distinct := by
    intro base s h
    unfold readBased? at h
    obtain ⟨⟨d, r'⟩, -, h⟩ := Option.bind_eq_some_iff.1 h
    obtain ⟨v', hv, h⟩ := Option.map_eq_some_iff.1 h
    obtain ⟨rfl, -⟩ := Prod.mk.inj h
    exact ofWhole?_distinct hv
  unfold readInt? at h
  split at h
  · exact hbased h
  · exact hbased h
  · exact hbased h
  · obtain ⟨⟨d, r'⟩, -, h⟩ := Option.bind_eq_some_iff.1 h
    obtain ⟨v', hv, h⟩ := Option.map_eq_some_iff.1 h
    obtain ⟨rfl, -⟩ := Prod.mk.inj h
    exact ofWhole?_distinct hv

theorem readDecimal?_distinct (h : readDecimal? s = some (v, r)) : v.Distinct := by
  rcases Option.or_eq_some_iff.1 h with h | ⟨-, h⟩
  · unfold readSpecial? at h
    split at h <;> cases h <;> exact .decimal _
  · rcases readSign s with ⟨negative, unsigned⟩
    dsimp only at h
    obtain ⟨⟨whole, r'⟩, -, h⟩ := Option.bind_eq_some_iff.1 h
    obtain ⟨⟨fraction, e, r'⟩, -, h⟩ := Option.bind_eq_some_iff.1 h
    dsimp only at h
    split at h
    · cases h
    · cases h
      exact .decimal _

theorem readMoment?_distinct (h : readMoment? s = some (v, r)) : v.Distinct := by
  obtain ⟨⟨text, r'⟩, -, h⟩ := Option.map_eq_some_iff.1 h
  obtain ⟨rfl, -⟩ := Prod.mk.inj h
  exact .moment _

theorem readLeaf_distinct (h : readLeaf s = .ok (v, r)) : v.Distinct := by
  have hstring : ∀ {s}, (readString s >>= fun e => Except.ok (Toml.string (.ofList e.1), e.2)) =
      .ok (v, r) → v.Distinct := by
    intro s h
    obtain ⟨⟨text, r'⟩, -, h⟩ := bind_eq_ok.1 h
    cases h
    exact .string _
  unfold readLeaf at h
  split at h
  · exact hstring h
  · exact hstring h
  · cases h
    exact .bool _
  · cases h
    exact .bool _
  · unfold readNumeral at h
    split at h
    · rename_i found hfound
      obtain rfl := Except.ok.inj h
      rcases Option.or_eq_some_iff.1 hfound with hfound | ⟨-, hfound⟩
      · rcases Option.or_eq_some_iff.1 hfound with hfound | ⟨-, hfound⟩
        · exact readMoment?_distinct hfound
        · exact readDecimal?_distinct hfound
      · exact readInt?_distinct hfound
    · cases h

/-- What is read of a value has no key twice: by induction on the steps, for a value, for the elements
of an array and for the pairs of an inline table at once. -/
theorem read_distinct (n : Nat) :
    (∀ {depth s v r}, readValue n depth s = .ok (v, r) → v.Distinct) ∧
    (∀ {depth s items r}, readItems n depth s = .ok (items, r) → ∀ v ∈ items, v.Distinct) ∧
    (∀ {depth entries s entries' r}, DistinctEntries entries →
      readPairs n depth entries s = .ok (entries', r) → DistinctEntries entries') := by
  induction n with
  | zero => exact ⟨nofun, nofun, fun _ => nofun⟩
  | succ n ih =>
    obtain ⟨ihValue, ihItems, ihPairs⟩ := ih
    refine ⟨?_, ?_, ?_⟩
    · intro depth s v r h
      unfold readValue at h
      split at h
      · split at h
        · obtain ⟨⟨items, r'⟩, hitems, h⟩ := bind_eq_ok.1 h
          cases h
          exact .array (ihItems hitems)
        · cases h
      · split at h
        · split at h
          · cases h
            exact .table List.nodup_nil nofun
          · obtain ⟨⟨entries, r'⟩, hpairs, h⟩ := bind_eq_ok.1 h
            cases h
            exact (ihPairs .nil hpairs).finish
        · cases h
      · exact readLeaf_distinct h
    · intro depth s items r h
      unfold readItems at h
      split at h
      · cases h
        nofun
      · obtain ⟨⟨v, r'⟩, hv, h⟩ := bind_eq_ok.1 h
        dsimp only at h
        split at h
        · cases h
          exact List.forall_mem_singleton.2 (ihValue hv)
        · obtain ⟨⟨rest, r'⟩, hrest, h⟩ := bind_eq_ok.1 h
          cases h
          exact List.forall_mem_cons.2 ⟨ihValue hv, ihItems hrest⟩
        · cases h
    · intro depth entries s entries' r hdistinct h
      unfold readPairs at h
      obtain ⟨⟨path, key, r'⟩, -, h⟩ := bind_eq_ok.1 h
      obtain ⟨r', -, h⟩ := bind_eq_ok.1 h
      obtain ⟨⟨v, r'⟩, hv, h⟩ := bind_eq_ok.1 h
      obtain ⟨between, hins, h⟩ := bind_eq_ok.1 h
      have hbetween := insertDotted_distinct (ihValue hv) hdistinct hins
      split at h
      · cases h
        exact hbetween
      · exact ihPairs hbetween h
      · cases h

end Values

section Lines

variable {doc doc' : Document} {s r : List Char}

theorem readPair_distinct (hdoc : DistinctEntries doc.entries) (h : readPair doc s = .ok (doc', r)) :
    DistinctEntries doc'.entries := by
  unfold readPair at h
  obtain ⟨⟨path, key, r'⟩, -, h⟩ := bind_eq_ok.1 h
  obtain ⟨r', -, h⟩ := bind_eq_ok.1 h
  obtain ⟨⟨v, r'⟩, hv, h⟩ := bind_eq_ok.1 h
  obtain ⟨r', -, h⟩ := bind_eq_ok.1 h
  obtain ⟨entries, hat, h⟩ := bind_eq_ok.1 h
  cases h
  exact atHeader_distinct (fun h => insertDotted_distinct ((read_distinct _).1 hv) h) hdoc hat

theorem readHeader_distinct (hdoc : DistinctEntries doc.entries) (h : readHeader doc s = .ok (doc', r)) :
    DistinctEntries doc'.entries := by
  unfold readHeader at h
  split at h
  · obtain ⟨⟨path, key, r'⟩, -, h⟩ := bind_eq_ok.1 h
    obtain ⟨r', -, h⟩ := bind_eq_ok.1 h
    obtain ⟨r', -, h⟩ := bind_eq_ok.1 h
    obtain ⟨r', -, h⟩ := bind_eq_ok.1 h
    obtain ⟨entries, hat, h⟩ := bind_eq_ok.1 h
    cases h
    exact atHeader_distinct openElement_distinct hdoc hat
  · obtain ⟨⟨path, key, r'⟩, -, h⟩ := bind_eq_ok.1 h
    obtain ⟨r', -, h⟩ := bind_eq_ok.1 h
    obtain ⟨r', -, h⟩ := bind_eq_ok.1 h
    obtain ⟨entries, hat, h⟩ := bind_eq_ok.1 h
    cases h
    exact atHeader_distinct openTable_distinct hdoc hat

theorem readLine_distinct (hdoc : DistinctEntries doc.entries) (h : readLine doc s = .ok (doc', r)) :
    DistinctEntries doc'.entries := by
  unfold readLine at h
  split at h
  · exact readHeader_distinct hdoc h
  · cases h
    exact hdoc
  · obtain ⟨r', -, h⟩ := bind_eq_ok.1 h
    cases h
    exact hdoc
  · split at h
    · cases h
      exact hdoc
    · exact readPair_distinct hdoc h

theorem readLines_distinct (n : Nat) : ∀ {doc doc' : Document} {s : List Char},
    DistinctEntries doc.entries → readLines n doc s = .ok doc' → DistinctEntries doc'.entries := by
  induction n with
  | zero =>
    intro doc doc' s hdoc h
    cases s with
    | nil =>
      obtain rfl := Except.ok.inj h
      exact hdoc
    | cons c r => cases h
  | succ n ih =>
    intro doc doc' s hdoc h
    cases s with
    | nil =>
      obtain rfl := Except.ok.inj h
      exact hdoc
    | cons c r =>
      obtain ⟨⟨between, r'⟩, hline, h⟩ := bind_eq_ok.1 h
      exact ih (readLine_distinct hdoc hline) h

/-- **In a document that was read no table has a key twice.** -/
theorem parse_distinct {text : String} {entries : List (String × Toml)} (h : parse text = .ok entries) :
    (Toml.table entries).Distinct := by
  unfold parse at h
  obtain ⟨doc, hlines, h⟩ := bind_eq_ok.1 h
  cases h
  exact (readLines_distinct _ .nil hlines).finish

end Lines

end Provision.Toml
