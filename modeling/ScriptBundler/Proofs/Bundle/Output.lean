import Mathlib.Algebra.Ring.Nat
import Mathlib.Data.List.Induction
import ScriptBundler.Bundle.Compile
import ScriptBundler.Proofs.Bundle.Built
import ScriptBundler.Proofs.Text.Lines

/-!
# What an output is made of

`listing` is the list of files that an entry brings to an output when its trace is known, and `Compiled.ofFiles` puts an
output together from files that have been loaded. A compilation that succeeds is the two in a row:

* `gives_compileOutput` takes a compilation apart into the paths asked for, their files, and the loading of these;
* `gives_assemble` says that an assembled output is `Compiled.ofFiles` of what was loaded for its files.
-/

namespace ScriptBundler

variable {σ : Type} {c : Collaborators σ} {b : Bundle}

namespace Bundle

/-- The files of an entry with the given trace. -/
def listing (b : Bundle) (entry : Path) (trace : List Path) : List Path :=
  (if b.isCarrier entry then b.partition.common.toList else []) ++
    if b.destination.isSome then trace.filter (!b.partition.common.contains ·) else trace

/-- An output holds the common files if its entry carries them, and of the trace all that does not go elsewhere. -/
theorem exists_mem_listing {entry p : Path} {trace : List Path} :
    (∃ q ∈ b.listing entry trace, (q == p) = true) ↔
      (b.isCarrier entry = true ∧ b.partition.common.contains p = true) ∨
        ((∃ q ∈ trace, (q == p) = true) ∧ ¬ (b.destination.isSome = true ∧ b.partition.common.contains p = true)) := by
  have own : (∃ q ∈ (if b.destination.isSome then trace.filter (!b.partition.common.contains ·) else trace),
      (q == p) = true) ↔
      (∃ q ∈ trace, (q == p) = true) ∧ ¬ (b.destination.isSome = true ∧ b.partition.common.contains p = true) := by
    split
    · rename_i hd
      simp only [List.mem_filter, hd, true_and]
      constructor
      · rintro ⟨q, ⟨hq, hc⟩, e⟩
        refine ⟨⟨q, hq, e⟩, ?_⟩
        rw [← PathSet.contains_congr e]
        simpa using hc
      · rintro ⟨⟨q, hq, e⟩, hc⟩
        refine ⟨q, ⟨hq, ?_⟩, e⟩
        rw [PathSet.contains_congr e]
        simpa using hc
    · rename_i hd
      simp [hd]
  unfold listing
  simp only [List.mem_append, or_and_right, exists_or, own]
  apply or_congr_left
  split
  · rename_i h
    simp only [h, true_and, PathSet.contains_iff]
  · rename_i h
    simp [h]

theorem gives_filesOf {entry : Path} {w w' : σ} {ps : List Path} (h : (b.filesOf c entry).Gives w ps w') :
    ∃ fs, (c.trace [entry]).Gives w fs w' ∧ ps = b.listing entry (fs.map (·.path)) := by
  obtain ⟨fs, w₁, hfs, h⟩ := Action.gives_bind.1 h
  obtain ⟨rfl, rfl⟩ := Action.gives_pure.1 h
  exact ⟨fs, hfs, rfl⟩

end Bundle

/-! ### Assembling -/

namespace Bundle.Assembly

/-- Puts one more file in. -/
def add (a : Assembly) (file : SourceFile) : Assembly where
  blocks := a.blocks ++ [file.code]
  combined := a.combined.addFile file.map a.line
  line := (a.line + SourceMap.lineCount file.code) % UInt32.size

/-- The number of lines of the code of files. -/
def lines (files : List SourceFile) : Nat := (files.map fun file => (linesOf file.code).length).sum

theorem lines_append (files files' : List SourceFile) : lines (files ++ files') = lines files + lines files' := by
  rw [lines, List.map_append, List.sum_append]
  rfl

/-- In 32 bits it does not matter whether each file's lines are counted in 32 bits already. -/
theorem lines_mod (files : List SourceFile) :
    lines files % UInt32.size = ((files.map (·.code)).map SourceMap.lineCount).sum % UInt32.size := by
  induction files with
  | nil => rfl
  | cons file files ih =>
    rw [lines, List.map_cons, List.map_cons, List.map_cons, List.sum_cons, List.sum_cons, lineCount_eq, Nat.mod_add_mod,
      Nat.add_mod, ← lines, ih, ← Nat.add_mod]

variable {files : List SourceFile}

theorem foldl_add_blocks (files : List SourceFile) : (files.foldl add {}).blocks = files.map (·.code) := by
  induction files using List.reverseRecOn with
  | nil => rfl
  | append_singleton files f ih => simp [List.foldl_append, add, ih]

theorem foldl_add_line (files : List SourceFile) : (files.foldl add {}).line = lines files % UInt32.size := by
  induction files using List.reverseRecOn with
  | nil => rfl
  | append_singleton files file ih =>
    rw [List.foldl_append, List.foldl_cons, List.foldl_nil, add, ih, lineCount_eq, ← Nat.add_mod, lines_append]
    simp [lines]

/-- Each file is registered on the line that is the number of lines of the files in front of it, in 32 bits. -/
theorem foldl_add_offsets (files : List SourceFile) : (files.foldl add {}).combined.offsets =
    (List.range files.length).map fun k => lines (files.take k) % UInt32.size := by
  induction files using List.reverseRecOn with
  | nil => rfl
  | append_singleton files f ih =>
    rw [List.foldl_append, List.length_append, List.length_singleton, List.range_succ, List.map_append]
    show (files.foldl add {}).combined.offsets ++ [(files.foldl add {}).line] = _
    rw [ih, foldl_add_line]
    congr 1
    · apply List.map_congr_left
      intro k hk
      rw [List.take_append_of_le_length (Nat.le_of_lt (List.mem_range.1 hk))]
    · simp

end Bundle.Assembly

namespace Compiled

/-- The output of files that have been loaded. -/
def ofFiles (files : List SourceFile) (traced bundled : List Path) (joiner : String) : Compiled :=
  let a := files.foldl Bundle.Assembly.add {}
  ⟨a.blocks, a.combined.finish, a.combined.offsets, traced, bundled, joiner⟩

/-- The number of lines of the blocks in front of the one at place `k`. -/
def linesAhead (out : Compiled) (k : Nat) : Nat := ((out.blocks.take k).map fun block => (linesOf block).length).sum

variable (files : List SourceFile) (traced bundled : List Path) (joiner : String)

theorem ofFiles_blocks : (ofFiles files traced bundled joiner).blocks = files.map (·.code) :=
  Bundle.Assembly.foldl_add_blocks files

theorem linesAhead_ofFiles (k : Nat) :
    (ofFiles files traced bundled joiner).linesAhead k = Bundle.Assembly.lines (files.take k) := by
  rw [linesAhead, ofFiles_blocks, ← List.map_take, List.map_map]
  rfl

/-- The offsets of an output tell the lines of its blocks, in 32 bits. -/
theorem ofFiles_offsets : (ofFiles files traced bundled joiner).offsets =
    (List.range files.length).map fun k => (ofFiles files traced bundled joiner).linesAhead k % UInt32.size := by
  simp only [linesAhead_ofFiles]
  exact Bundle.Assembly.foldl_add_offsets files

theorem ofFiles_offset {files : List SourceFile} {k : Nat} (hk : k < files.length) :
    (ofFiles files traced bundled joiner).offsets[k]? =
      some ((ofFiles files traced bundled joiner).linesAhead k % UInt32.size) := by
  rw [ofFiles_offsets, List.getElem?_map, List.getElem?_range hk, Option.map_some]

end Compiled

namespace Bundle

/-- What was loaded for a path in some world. -/
def Loaded (c : Collaborators σ) (p : Path) (file : SourceFile) : Prop := ∃ w w', (c.load p).Gives w file w'

private theorem gives_assembleFrom {traced bundled ps : List Path} {index : Nat} {a a' : Assembly} {w w' : σ}
    (h : (assembleFrom c traced bundled index a ps).Gives w a' w') :
    ∃ files, List.Forall₂ (Loaded c) ps files ∧ a' = files.foldl Assembly.add a := by
  induction ps generalizing index a w with
  | nil =>
    obtain ⟨rfl, -⟩ := Action.gives_pure.1 h
    exact ⟨[], .nil, rfl⟩
  | cons p ps ih =>
    obtain ⟨file, w₁, hf, h⟩ := Action.gives_bind.1 h
    obtain ⟨_, w₂, -, h⟩ := Action.gives_bind.1 h
    obtain ⟨files, hfiles, e⟩ := ih h
    exact ⟨file :: files, .cons ⟨w, w₁, Action.gives_during.1 hf⟩ hfiles, e⟩

theorem gives_assemble {traced bundled : List Path} {w w' : σ} {out : Compiled}
    (h : (b.assemble c traced bundled).Gives w out w') :
    ∃ files, List.Forall₂ (Loaded c) traced files ∧ out = .ofFiles files traced bundled b.options.joiner := by
  obtain ⟨a, w₁, ha, h⟩ := Action.gives_bind.1 h
  obtain ⟨rfl, rfl⟩ := Action.gives_pure.1 h
  obtain ⟨files, hfiles, rfl⟩ := gives_assembleFrom ha
  exact ⟨files, hfiles, rfl⟩

/-! ### Compiling -/

/-- The entries that are asked for. -/
def asked (c : Collaborators σ) (b : Bundle) : Option (List Path) → Action σ (List Path)
  | some ps => b.requested c ps
  | none => pure b.files

theorem compileOutput_eq (c : Collaborators σ) (b : Bundle) (paths : Option (List Path)) :
    b.compileOutput c paths = (do
      let entries ← b.asked c paths
      let lists ← b.workingList c entries
      b.assemble c lists.1 lists.2) := by
  cases paths <;> rfl

theorem gives_compileOutput {paths : Option (List Path)} {w w' : σ} {out : Compiled}
    (h : (b.compileOutput c paths).Gives w out w') :
    ∃ entries w₁ traced bundled w₂, (b.asked c paths).Gives w entries w₁ ∧
      (b.workingList c entries).Gives w₁ (traced, bundled) w₂ ∧ (b.assemble c traced bundled).Gives w₂ out w' := by
  rw [compileOutput_eq] at h
  obtain ⟨entries, w₁, he, h⟩ := Action.gives_bind.1 h
  obtain ⟨⟨traced, bundled⟩, w₂, hl, h⟩ := Action.gives_bind.1 h
  exact ⟨entries, w₁, traced, bundled, w₂, he, hl, h⟩

/-- The output of one entry lists what its trace brings. -/
theorem gives_compileOutput_entry {entry : Path} (he : b.isEntry entry = true) {w w' : σ} {out : Compiled}
    (h : (b.compileOutput c (some [entry])).Gives w out w') :
    ∃ fs w₁ w₂, (c.trace [entry]).Gives w₁ fs w₂ ∧ out.traced = b.listing entry (fs.map (·.path)) := by
  obtain ⟨entries, w₁, traced, bundled, w₂, hr, hl, ha⟩ := gives_compileOutput h
  simp only [asked, requested, he, if_true, pure_bind, List.append_nil] at hr
  obtain ⟨rfl, rfl⟩ := Action.gives_pure.1 hr
  simp only [workingList, he, if_true, pure_bind] at hl
  obtain ⟨ps, w₃, hps, hl⟩ := Action.gives_bind.1 hl
  obtain ⟨e, -⟩ := Action.gives_pure.1 hl
  obtain ⟨fs, hfs, rfl⟩ := gives_filesOf hps
  obtain ⟨files, -, rfl⟩ := gives_assemble ha
  rw [List.append_nil, Prod.mk.injEq] at e
  exact ⟨fs, w, w₃, hfs, e.1.symm⟩

end Bundle

end ScriptBundler
