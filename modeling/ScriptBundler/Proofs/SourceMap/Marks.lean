import ScriptBundler.Proofs.SourceMap.Builder

/-!
# What tokens say

A token names its source and its symbol by numbers, which mean nothing without the tables of a map. A `Mark` is what a
token says when the tables are looked up.

* `intern` is the way both tables of a builder grow: a text that is there already keeps its number
  (`addSources_eq_internAll`, `addNames_eq_internAll`), and each text is found under the number it was given
  (`getElem?_internAll`);
* a builder is tidy if its tokens use numbers of its own tables only, so that their marks stay the same when the tables
  grow; `marks_addMap` says that it takes in the marks of a map, each on a lower line and otherwise unchanged.
-/

namespace ScriptBundler

/-- What a token says: its place, the place it comes from, and the texts of its source and its symbol. -/
structure Mark where
  line : Nat
  column : Nat
  sourceLine : Nat
  sourceColumn : Nat
  source : Option String
  name : Option String
  deriving DecidableEq, Repr

/-- The same mark in a text that starts on line `offset`. -/
def Mark.lower (offset : Nat) (k : Mark) : Mark := { k with line := (k.line + offset) % UInt32.size }

/-- What a token says with the given tables. -/
def Token.mark (sources names : List String) (t : Token) : Mark where
  line := t.line
  column := t.column
  sourceLine := t.sourceLine
  sourceColumn := t.sourceColumn
  source := t.source.bind (sources[·]?)
  name := t.name.bind (names[·]?)

/-- What the tokens of a map say. -/
def SourceMap.marks (m : SourceMap) : List Mark := m.tokens.map (Token.mark m.sourceNames m.names)

namespace SourceMap

/-! ### Tables of texts -/

/-- The number of a text in a table, and the table with the text in it. -/
def intern (table : List String) (text : String) : Nat × List String :=
  match table.findIdx? (· = text) with
  | some i => (i, table)
  | none => (table.length, table ++ [text])

/-- The numbers of texts in a table, and the table with all of them in it. -/
def internAll (table : List String) : List String → List Nat × List String
  | [] => ([], table)
  | text :: texts =>
    let (number, table) := intern table text
    let (numbers, table) := internAll table texts
    (number :: numbers, table)

variable {table : List String} {i : Nat}

private theorem intern_extends (table : List String) (text : String) : table <+: (intern table text).2 := by
  unfold intern
  split
  · exact List.prefix_refl _
  · exact List.prefix_append ..

private theorem getElem?_intern (table : List String) (text : String) :
    (intern table text).2[(intern table text).1]? = some text := by
  unfold intern
  split
  · rename_i i h
    obtain ⟨hi, e, -⟩ := List.findIdx?_eq_some_iff_getElem.1 h
    rw [List.getElem?_eq_getElem hi]
    simpa using e
  · exact List.getElem?_concat_length

theorem internAll_extends (table texts : List String) : table <+: (internAll table texts).2 := by
  induction texts generalizing table with
  | nil => exact List.prefix_refl _
  | cons text texts ih => exact (intern_extends table text).trans (ih _)

/-- What a table holds stays where it is when the table grows. -/
theorem getElem?_of_prefix {table' : List String} (h : table <+: table') (hi : i < table.length) :
    table'[i]? = table[i]? := by
  obtain ⟨rest, rfl⟩ := h
  exact List.getElem?_append_left hi

/-- Each text is found under its number. -/
theorem getElem?_internAll (table texts : List String) (i : Nat) :
    ((internAll table texts).1[i]?).bind ((internAll table texts).2[·]?) = texts[i]? := by
  induction texts generalizing table i with
  | nil => rfl
  | cons text texts ih =>
    cases i with
    | zero =>
      have h := getElem?_intern table text
      have hi : (intern table text).1 < (intern table text).2.length := (List.getElem?_eq_some_iff.1 h).1
      have grown := getElem?_of_prefix (internAll_extends (intern table text).2 texts) hi
      exact grown.trans h
    | succ i => exact ih _ i

private theorem lt_of_mem_internAll {texts : List String} {n : Nat} (h : n ∈ (internAll table texts).1) :
    n < (internAll table texts).2.length := by
  induction texts generalizing table with
  | nil => cases h
  | cons text texts ih =>
    rcases List.mem_cons.1 h with rfl | h
    · have hi := (List.getElem?_eq_some_iff.1 (getElem?_intern table text)).1
      exact Nat.lt_of_lt_of_le hi (internAll_extends _ texts).length_le
    · exact ih h

namespace Builder

variable {b : Builder}

/-! ### The tables of a builder -/

/-- The sources of a builder without their texts. -/
def sourceTable (b : Builder) : List String := b.sources.map (·.1)

theorem addSource_eq_intern (b : Builder) (source : String) :
    ((b.addSource source).1, (b.addSource source).2.sourceTable) = intern b.sourceTable source := by
  have e : b.sourceTable.findIdx? (· = source) = b.sources.findIdx? (·.1 = source) := List.findIdx?_map ..
  unfold addSource intern
  rw [e]
  cases b.sources.findIdx? (·.1 = source) <;> simp [sourceTable]

private theorem addName_eq_intern (b : Builder) (name : String) :
    ((b.addName name).1, (b.addName name).2.names) = intern b.names name := by
  unfold addName intern
  cases b.names.findIdx? (· = name) <;> rfl

theorem setContent_sourceTable (b : Builder) (place : Nat) (content : String) :
    (b.setContent place content).sourceTable = b.sourceTable := by
  unfold setContent sourceTable
  apply List.ext_getElem?
  intro i
  rw [List.getElem?_map, List.getElem?_map, List.getElem?_modify]
  cases b.sources[i]? with
  | none => rfl
  | some source => by_cases h : place = i <;> simp [h]

/-- Whether a source comes with a text does not matter to the numbers. -/
theorem addSources_eq_internAll (b : Builder) (sources : List (String × Option String)) :
    ((b.addSources sources).1, (b.addSources sources).2.sourceTable) =
      internAll b.sourceTable (sources.map (·.1)) := by
  induction sources generalizing b with
  | nil => rfl
  | cons source sources ih =>
    rcases source with ⟨source, content⟩
    rw [List.map_cons, internAll, ← addSource_eq_intern]
    simp only
    rcases content with _ | content
    · rw [← ih]
      rfl
    · have rest := ih ((b.addSource source).2.setContent (b.addSource source).1 content)
      rw [setContent_sourceTable] at rest
      rw [← rest]
      rfl

theorem addNames_eq_internAll (b : Builder) (names : List String) :
    ((b.addNames names).1, (b.addNames names).2.names) = internAll b.names names := by
  induction names generalizing b with
  | nil => rfl
  | cons name names ih =>
    rw [internAll, ← addName_eq_intern]
    simp only
    rw [← ih]
    rfl

/-! ### The marks of a builder -/

/-- What the tokens of a builder say. -/
def marks (b : Builder) : List Mark := b.tokens.map (Token.mark b.sourceTable b.names)

/-- The tokens use numbers of the builder's tables only, and speak for single places. -/
structure Tidy (b : Builder) : Prop where
  source : ∀ t ∈ b.tokens, ∀ i, t.source = some i → i < b.sourceTable.length
  name : ∀ t ∈ b.tokens, ∀ i, t.name = some i → i < b.names.length
  single : ∀ t ∈ b.tokens, t.isRange = false

theorem tidy_empty : Tidy {} where
  source := by simp
  name := by simp
  single := by simp

/-- Tokens of a tidy builder say the same when its tables grow. -/
private theorem Tidy.mark_eq (h : b.Tidy) {sources names : List String} (hs : b.sourceTable <+: sources)
    (hn : b.names <+: names) {t : Token} (ht : t ∈ b.tokens) :
    t.mark sources names = t.mark b.sourceTable b.names := by
  unfold Token.mark
  congr 1
  · cases hi : t.source with
    | none => rfl
    | some i => exact getElem?_of_prefix hs (h.source t ht i hi)
  · cases hi : t.name with
    | none => rfl
    | some i => exact getElem?_of_prefix hn (h.name t ht i hi)

/-- A token that is taken in says the same on a lower line. -/
private theorem mark_shifted {m : SourceMap} {sources names : List String} (offset : Nat) (t : Token) :
    (shifted (internAll sources m.sourceNames).1 (internAll names m.names).1 offset t).mark
        (internAll sources m.sourceNames).2 (internAll names m.names).2 =
      (t.mark m.sourceNames m.names).lower offset := by
  unfold Token.mark shifted Mark.lower
  simp only [Option.bind_assoc, getElem?_internAll]

/-- A builder takes in a map as its tables take in those of the map. -/
private theorem addMap_eq (b : Builder) (m : SourceMap) (offset : Nat) :
    (b.addMap m offset).sourceTable = (internAll b.sourceTable m.sourceNames).2 ∧
    (b.addMap m offset).names = (internAll b.names m.names).2 ∧
    (b.addMap m offset).tokens = b.tokens ++ m.tokens.map
      (shifted (internAll b.sourceTable m.sourceNames).1 (internAll b.names m.names).1 offset) := by
  let added := b.addSources (m.sourceNames.zipIdx.map fun s => (s.1, m.content? s.2))
  have sources : (added.1, added.2.sourceTable) = internAll b.sourceTable m.sourceNames := by
    rw [addSources_eq_internAll, List.map_map]
    exact congrArg _ (List.zipIdx_map_fst ..)
  have names := added.2.addNames_eq_internAll m.names
  rw [addSources_names] at names
  rw [← sources, ← names]
  refine ⟨?_, rfl, ?_⟩
  · show (added.2.addNames m.names).2.sources.map (·.1) = _
    rw [addNames_sources]
    rfl
  · show (added.2.addNames m.names).2.tokens ++ _ = _
    rw [addNames_tokens, addSources_tokens]

/-- A builder takes in the marks of a map, on lower lines and otherwise unchanged. -/
theorem marks_addMap (h : b.Tidy) (m : SourceMap) (offset : Nat) :
    (b.addMap m offset).marks = b.marks ++ m.marks.map (·.lower offset) := by
  obtain ⟨sources, names, tokens⟩ := addMap_eq b m offset
  unfold marks SourceMap.marks
  rw [tokens, List.map_append, sources, names, List.map_map, List.map_map]
  congr 1
  · exact List.map_congr_left fun t ht => h.mark_eq (internAll_extends ..) (internAll_extends ..) ht
  · exact List.map_congr_left fun t _ => mark_shifted offset t

theorem Tidy.addMap (h : b.Tidy) (m : SourceMap) (offset : Nat) : (b.addMap m offset).Tidy := by
  obtain ⟨sources, names, tokens⟩ := addMap_eq b m offset
  have mem : ∀ t ∈ (b.addMap m offset).tokens, t ∈ b.tokens ∨ ∃ u, t =
      shifted (internAll b.sourceTable m.sourceNames).1 (internAll b.names m.names).1 offset u := by
    intro t ht
    rw [tokens] at ht
    rcases List.mem_append.1 ht with ht | ht
    · exact .inl ht
    · obtain ⟨u, -, rfl⟩ := List.mem_map.1 ht
      exact .inr ⟨u, rfl⟩
  refine ⟨fun t ht i hi => ?_, fun t ht i hi => ?_, fun t ht => ?_⟩
  · rw [sources]
    rcases mem t ht with ht | ⟨u, rfl⟩
    · exact Nat.lt_of_lt_of_le (h.source t ht i hi) (internAll_extends ..).length_le
    · obtain ⟨j, -, hj⟩ := Option.bind_eq_some_iff.1 hi
      exact lt_of_mem_internAll (List.mem_of_getElem? hj)
  · rw [names]
    rcases mem t ht with ht | ⟨u, rfl⟩
    · exact Nat.lt_of_lt_of_le (h.name t ht i hi) (internAll_extends ..).length_le
    · obtain ⟨j, -, hj⟩ := Option.bind_eq_some_iff.1 hi
      exact lt_of_mem_internAll (List.mem_of_getElem? hj)
  · rcases mem t ht with ht | ⟨u, rfl⟩
    · exact h.single t ht
    · rfl

/-! ### Finished maps -/

/-- A finished map says what its builder says. -/
theorem marks_finish_perm (b : Builder) : b.finish.marks.Perm b.marks := b.finish_tokens_perm.map _

private theorem less_weakOrder : Sorting.WeakOrder Token.less where
  asymm s t h := by
    simp only [Token.less, Bool.or_eq_true, Bool.and_eq_true, decide_eq_true_eq] at h ⊢
    omega
  trans s t u hst htu := by
    simp only [Token.less, Bool.or_eq_true, Bool.and_eq_true, decide_eq_true_eq] at hst htu ⊢
    omega

/-- The tokens of a finished map come in the order of their places. -/
theorem finish_tokens_ascending (b : Builder) : Sorting.Ascending Token.less b.finish.tokens :=
  Sorting.sortBy_ascending less_weakOrder b.tokens

end Builder

end SourceMap

end ScriptBundler
