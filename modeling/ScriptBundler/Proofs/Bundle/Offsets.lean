import Mathlib.Algebra.Order.BigOperators.Group.List
import Mathlib.Algebra.Order.Ring.Nat
import Mathlib.Data.Int.ModEq
import ScriptBundler.Proofs.Bundle.Output
import ScriptBundler.Proofs.SourceMap.Builder
import ScriptBundler.Proofs.Text.Lines

/-!
# Offsets and lines

The offset of a file is the number of lines of the files in front of it, in 32 bits. In the code each of these files is
followed by the joiner, whose newlines are not counted, so that the block at place `k` stands `k` times as many lines
below its offset as the joiner has newlines beyond the first (`compileOutput_lines`, `compileOutput_starts`). The tokens
of a file are on the lines that its offset says, so for all outputs these are the right ones only if the joiner has one
newline.

`Compiled.stands_iff` and `Compiled.startsOn_iff` are about any output, `count_ahead_code` compares the two ways to
count, with whole numbers: that there are only so many of 32 bits comes in with the offsets.
-/

namespace ScriptBundler

variable {σ : Type} {c : Collaborators σ} {b : Bundle}

/-- Line `l` of the block at place `k` reads `line` and stands on line `m` of the code. -/
def Compiled.Stands (out : Compiled) (k l : Nat) (line : List Char) (m : Nat) : Prop :=
  ∃ block before after, out.blocks[k]? = some block ∧ (linesOf block)[l]? = some line ∧
    before = ahead out.joiner.toList (out.blocks.map String.toList) k ++ ahead ['\n'] (linesOf block) l ∧
    out.code.toList = before ++ line ++ after ∧ before.count '\n' = m

/-- The block at place `k` starts on line `m` of the code. -/
def Compiled.StartsOn (out : Compiled) (k m : Nat) : Prop := ∃ line, out.Stands k 0 line m

namespace Compiled

variable {out : Compiled} {k l m : Nat} {line : List Char}

/-- A line of a block is part of the line of the code on which it stands. -/
private theorem Stands.getElem?_code (h : out.Stands k l line m) :
    ∃ left right, (linesOf out.code)[m]? = some (left ++ line ++ right) := by
  obtain ⟨block, before, after, -, hline, -, e, rfl⟩ := h
  exact getElem?_linesOf e (not_mem_of_mem_linesOf (List.mem_of_getElem? hline))

/-- Each block has a line. -/
private theorem le_linesAhead (hk : k ≤ out.blocks.length) : k ≤ out.linesAhead k := by
  have all : ∀ blocks : List String, blocks.length ≤ (blocks.map fun block => (linesOf block).length).sum := by
    intro blocks
    induction blocks with
    | nil => exact Nat.le_refl 0
    | cons block blocks ih =>
      rw [List.length_cons, List.map_cons, List.sum_cons, length_linesOf]
      omega
  have := all (out.blocks.take k)
  rwa [List.length_take, Nat.min_eq_left hk] at this

private theorem linesAhead_mono (hk : k ≤ l) : out.linesAhead k ≤ out.linesAhead l := by
  have front : out.blocks.take k = (out.blocks.take l).take k := by rw [List.take_take, Nat.min_eq_left hk]
  rw [linesAhead, linesAhead, front]
  exact ((List.take_sublist k _).map _).sum_le_sum fun _ _ => Nat.zero_le _

/-- The newlines in front of a block and its lines: the one counts the newlines of joiners, the other one for each
block. -/
theorem count_ahead_code (hk : k ≤ out.blocks.length) :
    (ahead out.joiner.toList (out.blocks.map String.toList) k).count '\n' + k =
      out.linesAhead k + k * newlines out.joiner := by
  rw [linesAhead]
  generalize out.blocks = blocks at hk
  induction blocks generalizing k with
  | nil =>
    obtain rfl : k = 0 := Nat.le_zero.1 hk
    simp [ahead]
  | cons block blocks ih =>
    cases k with
    | zero => simp [ahead]
    | succ k =>
      have rest := ih (Nat.le_of_succ_le_succ hk)
      have first := length_linesOf block
      simp only [ahead, newlines] at rest first ⊢
      simp only [List.map_cons, List.take_succ_cons, List.flatMap_cons, List.count_append, List.sum_cons, first,
        Nat.succ_mul]
      omega

/-- Each line of each block stands on just one line of the code. -/
private theorem stands_iff_count {block : String} (hblock : out.blocks[k]? = some block)
    (hline : (linesOf block)[l]? = some line) :
    out.Stands k l line m ↔ m = (ahead out.joiner.toList (out.blocks.map String.toList) k).count '\n' + l := by
  have hl : l ≤ (linesOf block).length := Nat.le_of_lt (List.getElem?_eq_some_iff.1 hline).1
  constructor
  · rintro ⟨block', before, after, hblock', -, rfl, -, rfl⟩
    rw [hblock] at hblock'
    cases hblock'
    rw [List.count_append, count_ahead_linesOf hl]
  · rintro rfl
    obtain ⟨inner, e⟩ := text_eq hline
    have hpiece : (out.blocks.map String.toList)[k]? = some block.toList := by
      rw [List.getElem?_map, hblock, Option.map_some]
    obtain ⟨outer, e'⟩ := intercalate_eq out.joiner.toList hpiece
    refine ⟨block, _, inner ++ outer, hblock, hline, rfl, ?_, ?_⟩
    · rw [code, String.toList_intercalate, e', e]
      simp only [List.append_assoc]
    · rw [List.count_append, count_ahead_linesOf hl]

/-- A line of a block stands below the lines in front of the block by the newlines of the joiners, less one for each
block. -/
theorem stands_iff {block : String} (hblock : out.blocks[k]? = some block) (hline : (linesOf block)[l]? = some line) :
    out.Stands k l line m ↔ m + k = out.linesAhead k + l + k * newlines out.joiner := by
  have key := out.count_ahead_code (Nat.le_of_lt (List.getElem?_eq_some_iff.1 hblock).1)
  rw [stands_iff_count hblock hline]
  omega

/-- A block starts below the lines in front of it by the newlines of the joiners, less one for each block. -/
theorem startsOn_iff {block : String} (hblock : out.blocks[k]? = some block) :
    out.StartsOn k m ↔ m + k = out.linesAhead k + k * newlines out.joiner := by
  constructor
  · rintro ⟨line, stands⟩
    obtain ⟨block', before, after, hblock', hline, -⟩ := id stands
    rw [hblock] at hblock'
    cases hblock'
    exact (stands_iff hblock hline).1 stands
  · intro h
    -- even an empty block has a first line
    obtain ⟨line, rest, hlines⟩ := List.exists_cons_of_ne_nil (List.splitOn_ne_nil '\n' block.toList)
    have hline : (linesOf block)[0]? = some line := by rw [linesOf, hlines, List.getElem?_cons_zero]
    exact ⟨line, (stands_iff hblock hline).2 h⟩

end Compiled

namespace Bundle

open Assembly (lines)

variable {files : List SourceFile} {traced bundled : List Path} {joiner : String} {k l m : Nat} {file : SourceFile}
  {line : List Char}

/-- Each token of a file is taken in, on the line that the lines of the files in front of it say. -/
private theorem exists_shifted (hfile : files[k]? = some file) {t : Token} (ht : t ∈ file.map.tokens) :
    ∃ sources names, SourceMap.Builder.shifted sources names (lines (files.take k) % UInt32.size) t ∈
      (files.foldl Assembly.add {}).combined.builder.tokens := by
  induction files using List.reverseRecOn with
  | nil => cases hfile
  | append_singleton files last ih =>
    obtain ⟨sources, names, tokens_eq⟩ := (files.foldl Assembly.add {}).combined.builder.addMap_tokens last.map
      (files.foldl Assembly.add {}).line
    rw [List.foldl_append, List.foldl_cons, List.foldl_nil]
    simp only [Assembly.add, SourceMap.Combined.addFile, tokens_eq, List.mem_append, List.mem_map]
    rcases Nat.lt_trichotomy k files.length with hk | rfl | hk
    · rw [List.getElem?_append_left hk] at hfile
      obtain ⟨sources', names', found⟩ := ih hfile
      rw [List.take_append_of_le_length (Nat.le_of_lt hk)]
      exact ⟨sources', names', .inl found⟩
    · rw [List.getElem?_concat_length] at hfile
      cases hfile
      refine ⟨sources, names, .inr ⟨t, ht, ?_⟩⟩
      rw [Assembly.foldl_add_line, List.take_left' rfl]
    · rw [List.getElem?_eq_none (by simpa using Nat.succ_le_of_lt hk)] at hfile
      cases hfile

/-- Each token of a file is a token of the output. -/
private theorem exists_token_ofFiles (hfile : files[k]? = some file) {t : Token} (ht : t ∈ file.map.tokens) :
    ∃ t' ∈ (Compiled.ofFiles files traced bundled joiner).map.tokens,
      t'.line = (t.line + (Compiled.ofFiles files traced bundled joiner).linesAhead k % UInt32.size) % UInt32.size ∧
        t'.column = t.column ∧ t'.sourceLine = t.sourceLine ∧ t'.sourceColumn = t.sourceColumn := by
  obtain ⟨sources, names, h⟩ := exists_shifted hfile ht
  rw [Compiled.linesAhead_ofFiles]
  exact ⟨_, (SourceMap.Builder.finish_tokens_perm _).mem_iff.2 h, rfl, rfl, rfl, rfl⟩

/-- In an output the lines of the file at place `k` stand below the lines in front of it, which its offset counts in 32
bits, by the newlines of `k` joiners, less `k`. Its tokens are on the lines that the offset says. As long as 32 bits are
enough, these are the right ones for all files if the joiner has one newline, and only then if there are two files. -/
theorem compileOutput_lines {paths : Option (List Path)} {w w' : σ} {out : Compiled}
    (h : (b.compileOutput c paths).Gives w out w') :
    ∃ files, List.Forall₂ (Loaded c) out.traced files ∧ out.blocks = files.map (·.code) ∧
      (∀ (k : Nat) (file : SourceFile), files[k]? = some file → ∃ offset, out.offsets[k]? = some offset ∧
        offset = out.linesAhead k % UInt32.size ∧
        (∀ (l : Nat) (line : List Char), (linesOf file.code)[l]? = some line →
          out.Stands k l line (out.linesAhead k + l + k * newlines b.options.joiner - k)) ∧
        ∀ t ∈ file.map.tokens, ∃ t' ∈ out.map.tokens, t'.line = (t.line + offset) % UInt32.size ∧ t'.column = t.column ∧
          t'.sourceLine = t.sourceLine ∧ t'.sourceColumn = t.sourceColumn) ∧
      (out.linesAhead files.length < UInt32.size →
        ((∀ (k offset l : Nat) (file : SourceFile) (line : List Char), files[k]? = some file →
            out.offsets[k]? = some offset → (linesOf file.code)[l]? = some line → out.Stands k l line (offset + l)) ↔
          newlines b.options.joiner = 1 ∨ files.length ≤ 1)) := by
  obtain ⟨entries, w₁, traced, bundled, w₂, -, -, ha⟩ := gives_compileOutput h
  obtain ⟨files, loaded, rfl⟩ := gives_assemble ha
  have blocks_eq := Compiled.ofFiles_blocks files traced bundled b.options.joiner
  have hblock {k : Nat} {file : SourceFile} (hfile : files[k]? = some file) :
      (Compiled.ofFiles files traced bundled b.options.joiner).blocks[k]? = some file.code := by
    rw [blocks_eq, List.getElem?_map, hfile, Option.map_some]
  have hoffset {k : Nat} {file : SourceFile} (hfile : files[k]? = some file) :=
    Compiled.ofFiles_offset traced bundled b.options.joiner (List.getElem?_eq_some_iff.1 hfile).1
  refine ⟨files, loaded, blocks_eq, fun k file hfile => ?_, fun fits => ⟨fun agree => ?_, ?_⟩⟩
  · refine ⟨_, hoffset hfile, rfl, fun l line hline => ?_, fun t ht => exists_token_ofFiles hfile ht⟩
    rw [Compiled.stands_iff (hblock hfile) hline]
    have := Compiled.le_linesAhead (Nat.le_of_lt (List.getElem?_eq_some_iff.1 (hblock hfile)).1)
    show _ = _ + l + k * newlines b.options.joiner
    omega
  · -- the second file shows how many newlines the joiner has
    by_contra hn
    rw [not_or, Nat.not_le] at hn
    have hfile : files[1]? = some files[1] := List.getElem?_eq_getElem hn.2
    obtain ⟨line, rest, hlines⟩ := List.exists_cons_of_ne_nil (List.splitOn_ne_nil '\n' files[1].code.toList)
    have hline : (linesOf files[1].code)[0]? = some line := by rw [linesOf, hlines, List.getElem?_cons_zero]
    have key := (Compiled.stands_iff (hblock hfile) hline).1 (agree 1 _ 0 _ line hfile (hoffset hfile) hline)
    rw [Nat.mod_eq_of_lt (Nat.lt_of_le_of_lt (Compiled.linesAhead_mono (Nat.le_of_lt hn.2)) fits)] at key
    have : newlines b.options.joiner = 1 := by
      change _ = _ + 0 + 1 * newlines b.options.joiner at key
      omega
    exact hn.1 this
  · intro hj k offset l file line hfile hoffset' hline
    have hk : k < files.length := (List.getElem?_eq_some_iff.1 hfile).1
    rw [hoffset hfile] at hoffset'
    cases hoffset'
    rw [Compiled.stands_iff (hblock hfile) hline,
      Nat.mod_eq_of_lt (Nat.lt_of_le_of_lt (Compiled.linesAhead_mono (Nat.le_of_lt hk)) fits)]
    show _ = _ + l + k * newlines b.options.joiner
    rcases hj with hj | hj
    · rw [hj]
      omega
    · obtain rfl : k = 0 := by omega
      simp

theorem compileOutput_lines_fork : ∃ (b : Bundle) (out : Compiled), Built (.ofGraph fork []) b ∧
    (b.compileOutput (.ofGraph fork []) (some [⟨"a"⟩])).Gives () out () ∧ newlines b.options.joiner = 2 ∧
      out.blocks[1]? = some "a" ∧ out.offsets[1]? = some 1 ∧ out.Stands 1 0 ['a'] 2 := by
  have hb : Built (.ofGraph fork []) (ofGraph fork [] ["a"] {}) := ofGraph_built (by decide)
  have h := Action.gives_of_isOk (x := compileOutput (.ofGraph fork []) (ofGraph fork [] ["a"] {}) (some [⟨"a"⟩]))
    (by decide)
  obtain ⟨files, -, blocks_eq, key, -⟩ := compileOutput_lines h
  have second : (files.map (·.code))[1]? = some "a" := blocks_eq ▸ by decide
  rw [List.getElem?_map, Option.map_eq_some_iff] at second
  obtain ⟨file, hfile, hcode⟩ := second
  obtain ⟨-, -, -, stands, -⟩ := key 1 file hfile
  exact ⟨_, _, hb, h, by decide, by decide, by decide, stands 0 ['a'] (by rw [hcode]; decide)⟩

/-- With the default joiner the second of two files is not on the line of its offset: the code is empty there. -/
theorem compileOutput_lines_drift : ∃ (b : Bundle) (out : Compiled), Built (.ofGraph fork []) b ∧
    (b.compileOutput (.ofGraph fork []) (some [⟨"a"⟩])).Gives () out () ∧ out.blocks[1]? = some "a" ∧
      out.offsets[1]? = some 1 ∧ (linesOf "a")[0]? = some ['a'] ∧ (linesOf out.code)[1 + 0]? = some [] ∧
      ¬ out.Stands 1 0 ['a'] (1 + 0) := by
  have hb : Built (.ofGraph fork []) (ofGraph fork [] ["a"] {}) := ofGraph_built (by decide)
  have h := Action.gives_of_isOk (x := compileOutput (.ofGraph fork []) (ofGraph fork [] ["a"] {}) (some [⟨"a"⟩]))
    (by decide)
  refine ⟨_, _, hb, h, by decide, by decide, by decide, by decide, ?_⟩
  intro hs
  obtain ⟨left, right, e⟩ := hs.getElem?_code
  have empty : some [] = some (left ++ ['a'] ++ right) := Eq.trans (by decide) e
  simp at empty

/-! ### Where blocks start -/

private theorem exists_start {paths : Option (List Path)} {w w' : σ} {out : Compiled} {offset : Nat}
    (h : (b.compileOutput c paths).Gives w out w') (hoffset : out.offsets[k]? = some offset) :
    offset = out.linesAhead k % UInt32.size ∧ ∃ start, (∀ m, out.StartsOn k m ↔ m = start) ∧
      (start : Int) - out.linesAhead k = k * ((newlines b.options.joiner : Int) - 1) := by
  obtain ⟨entries, w₁, traced, bundled, w₂, -, -, ha⟩ := gives_compileOutput h
  obtain ⟨files, loaded, rfl⟩ := gives_assemble ha
  have hk : k < files.length := by
    have := (List.getElem?_eq_some_iff.1 hoffset).1
    rwa [Compiled.ofFiles_offsets, List.length_map, List.length_range] at this
  rw [Compiled.ofFiles_offset _ _ _ hk] at hoffset
  cases hoffset
  have hblock : (Compiled.ofFiles files traced bundled b.options.joiner).blocks[k]? = some files[k].code := by
    rw [Compiled.ofFiles_blocks, List.getElem?_map, List.getElem?_eq_getElem hk, Option.map_some]
  have enough := Compiled.le_linesAhead (Nat.le_of_lt (List.getElem?_eq_some_iff.1 hblock).1)
  refine ⟨rfl, (Compiled.ofFiles files traced bundled b.options.joiner).linesAhead k +
    k * newlines b.options.joiner - k, fun m => ?_, ?_⟩
  · rw [Compiled.startsOn_iff hblock]
    show _ = _ + k * newlines b.options.joiner ↔ _
    omega
  · rw [Int.mul_sub, Int.mul_one, ← Int.natCast_mul]
    omega

/-- The lines on which the blocks of an output start are off from the offsets by one line for each file in front and
each newline that the joiner has beyond the first: exactly so as long as 32 bits are enough for the lines in front, and
always as 32 bits count. So the offsets of all bundles with a joiner are right exactly if it has one newline. -/
theorem compileOutput_starts (joiner : String) :
    (∀ {σ : Type} {c : Collaborators σ} {b : Bundle} {paths : Option (List Path)} {w w' : σ} {out : Compiled},
      b.options.joiner = joiner → (b.compileOutput c paths).Gives w out w' →
        out.offsets.length = out.blocks.length ∧ ∀ (k offset : Nat), out.offsets[k]? = some offset →
          ∃ start, (∀ m, out.StartsOn k m ↔ m = start) ∧
            (out.linesAhead k < UInt32.size → (start : Int) - offset = k * ((newlines joiner : Int) - 1)) ∧
            (start : Int) - offset ≡ k * ((newlines joiner : Int) - 1) [ZMOD UInt32.size]) ∧
    ((∀ {σ : Type} {c : Collaborators σ} {b : Bundle} {paths : Option (List Path)} {w w' : σ} {out : Compiled},
      Built c b → b.options.joiner = joiner → (b.compileOutput c paths).Gives w out w' →
        ∀ (k offset : Nat), out.linesAhead k < UInt32.size → out.offsets[k]? = some offset →
          out.StartsOn k offset) ↔ newlines joiner = 1) := by
  refine ⟨?_, fun right => ?_, ?_⟩
  · rintro σ c b paths w w' out rfl h
    refine ⟨?_, fun k offset hoffset => ?_⟩
    · obtain ⟨entries, w₁, traced, bundled, w₂, -, -, ha⟩ := gives_compileOutput h
      obtain ⟨files, -, rfl⟩ := gives_assemble ha
      rw [Compiled.ofFiles_offsets, Compiled.ofFiles_blocks, List.length_map, List.length_map, List.length_range]
    · obtain ⟨rfl, start, unique, drift⟩ := exists_start h hoffset
      refine ⟨start, unique, fun fits => ?_, ?_⟩
      · rwa [Nat.mod_eq_of_lt fits]
      · rw [← drift, Int.natCast_mod]
        exact (Int.ModEq.refl _).sub (Int.mod_modEq ..)
  · -- the second file of an output shows how many newlines the joiner has
    have hb : Built (.ofGraph fork []) (ofGraph fork [] ["a"] { joiner }) := ofGraph_built (by rfl)
    have h := Action.gives_of_isOk
      (x := compileOutput (.ofGraph fork []) (ofGraph fork [] ["a"] { joiner }) (some [⟨"a"⟩])) (by rfl)
    have hoffset : ((compileOutput (.ofGraph fork []) (ofGraph fork [] ["a"] { joiner })
        (some [⟨"a"⟩]) ()).1.toOption.getD default).offsets[1]? = some 1 := by rfl
    have ahead_eq : ((compileOutput (.ofGraph fork []) (ofGraph fork [] ["a"] { joiner })
        (some [⟨"a"⟩]) ()).1.toOption.getD default).linesAhead 1 = 1 := by rfl
    obtain ⟨-, start, unique, drift⟩ := exists_start h hoffset
    have start_eq : 1 = start := (unique 1).1 (right hb rfl h 1 1 (by rw [ahead_eq]; decide) hoffset)
    have joiner_eq : (ofGraph fork [] ["a"] { joiner }).options.joiner = joiner := by rfl
    rw [joiner_eq, ahead_eq] at drift
    omega
  · rintro one σ c b paths w w' out - rfl h k offset fits hoffset
    obtain ⟨rfl, start, unique, drift⟩ := exists_start h hoffset
    rw [one] at drift
    rw [Nat.mod_eq_of_lt fits]
    exact (unique _).2 (by omega)

/-- Two newlines between blocks put the second block of an output one line below its offset. -/
theorem compileOutput_starts_fork : ∃ (b : Bundle) (out : Compiled), Built (.ofGraph fork []) b ∧
    b.options.joiner = "\n\n" ∧ (b.compileOutput (.ofGraph fork []) (some [⟨"a"⟩])).Gives () out () ∧
    out.offsets[1]? = some 1 ∧ newlines "\n\n" = 2 ∧ (∀ m, out.StartsOn 1 m ↔ m = 2) := by
  have hb : Built (.ofGraph fork []) (ofGraph fork [] ["a"] {}) := ofGraph_built (by decide)
  have h := Action.gives_of_isOk (x := compileOutput (.ofGraph fork []) (ofGraph fork [] ["a"] {}) (some [⟨"a"⟩]))
    (by decide)
  have hoffset : ((compileOutput (.ofGraph fork []) (ofGraph fork [] ["a"] {})
      (some [⟨"a"⟩]) ()).1.toOption.getD default).offsets[1]? = some 1 := by decide
  have two : newlines "\n\n" = 2 := by decide
  obtain ⟨-, starts⟩ := (compileOutput_starts "\n\n").1 (by decide) h
  obtain ⟨start, unique, drift, -⟩ := starts 1 1 hoffset
  have exact_drift := drift (by decide)
  obtain rfl : start = 2 := by
    rw [two] at exact_drift
    omega
  exact ⟨_, _, hb, by decide, h, hoffset, two, unique⟩

end Bundle

end ScriptBundler
