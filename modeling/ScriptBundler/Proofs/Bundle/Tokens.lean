import Mathlib
import ScriptBundler.Proofs.Bundle.Output
import ScriptBundler.Proofs.SourceMap.Marks

/-!
# The tokens of an output

The map of an output says what the maps of its files say, each on lines below the offset of its file, and nothing else
(`compileOutput_marks`). Sources and names that files share come into one table, but a token still finds the texts it
named before. The tokens come in the order of their places.
-/

namespace ScriptBundler

variable {σ : Type} {c : Collaborators σ} {b : Bundle}

namespace Bundle.Assembly

/-- While files are put in, the builder stays tidy and says what their maps say, each below its offset. -/
theorem foldl_add_marks (files : List SourceFile) :
    (files.foldl add {}).combined.builder.Tidy ∧
    (files.foldl add {}).combined.builder.marks =
      (files.zip (files.foldl add {}).combined.offsets).flatMap fun f => f.1.map.marks.map (·.lower f.2) := by
  induction files using List.reverseRecOn with
  | nil => exact ⟨SourceMap.Builder.tidy_empty, rfl⟩
  | append_singleton files f ih =>
    obtain ⟨tidy, marks⟩ := ih
    have same : files.length = (files.foldl add {}).combined.offsets.length := by simp [foldl_add_offsets]
    rw [List.foldl_append, List.foldl_cons, List.foldl_nil]
    refine ⟨tidy.addMap .., ?_⟩
    show SourceMap.Builder.marks (SourceMap.Builder.addMap ..) = _
    rw [SourceMap.Builder.marks_addMap tidy, marks]
    show _ = ((files ++ [f]).zip ((files.foldl add {}).combined.offsets ++ [(files.foldl add {}).line])).flatMap _
    rw [List.zip_append same, List.flatMap_append]
    simp

end Bundle.Assembly

namespace Bundle

/-- Each file of an output starts on the line that is the number of lines of the blocks in front of it, in 32 bits. The
tokens of the map say what those of the files say, each below the offset of its file, and are in the order of their
places. -/
theorem compileOutput_marks {paths : Option (List Path)} {w w' : σ} {out : Compiled}
    (h : (b.compileOutput c paths).Gives w out w') :
    ∃ files, List.Forall₂ (Loaded c) out.traced files ∧ out.blocks = files.map (·.code) ∧
      out.offsets = (List.range files.length).map
        (fun k => ((out.blocks.take k).map SourceMap.lineCount).sum % UInt32.size) ∧
      ((out.blocks.map SourceMap.lineCount).sum < UInt32.size →
        out.offsets = (List.range files.length).map (fun k => ((out.blocks.take k).map SourceMap.lineCount).sum)) ∧
      out.map.marks.Perm ((files.zip out.offsets).flatMap fun f => f.1.map.marks.map (·.lower f.2)) ∧
      (∀ t ∈ out.map.tokens, t.isRange = false) ∧
      out.map.tokens.Pairwise fun s t => s.line < t.line ∨ (s.line = t.line ∧ s.column ≤ t.column) := by
  obtain ⟨entries, w₁, traced, bundled, w₂, -, -, ha⟩ := gives_compileOutput h
  obtain ⟨files, loaded, rfl⟩ := gives_assemble ha
  obtain ⟨tidy, marks⟩ := Assembly.foldl_add_marks files
  have blocks := Compiled.ofFiles_blocks files traced bundled b.options.joiner
  have offsets : (Compiled.ofFiles files traced bundled b.options.joiner).offsets = (List.range files.length).map
      (fun k => (((files.map (·.code)).take k).map SourceMap.lineCount).sum % UInt32.size) := by
    refine (Assembly.foldl_add_offsets files).trans (List.map_congr_left fun k _ => ?_)
    rw [Assembly.lines_mod, List.map_take]
  refine ⟨files, loaded, blocks, blocks ▸ offsets, fun fits => ?_, ?_, fun t ht => ?_, ?_⟩
  · rw [blocks] at fits ⊢
    rw [offsets]
    refine List.map_congr_left fun k _ => Nat.mod_eq_of_lt (Nat.lt_of_le_of_lt ?_ fits)
    exact ((List.take_sublist k _).map _).sum_le_sum fun _ _ => Nat.zero_le _
  · exact marks ▸ SourceMap.Builder.marks_finish_perm _
  · exact tidy.single t ((SourceMap.Builder.finish_tokens_perm _).mem_iff.1 ht)
  · refine (SourceMap.Builder.finish_tokens_ascending _).imp fun {s t} hst => ?_
    simp only [Token.less, Bool.or_eq_true, Bool.and_eq_true, decide_eq_true_eq] at hst
    omega

theorem compileOutput_marks_fork : ∃ (b : Bundle) (out : Compiled), Built (.ofGraph fork []) b ∧
    (b.compileOutput (.ofGraph fork []) (some [⟨"a"⟩])).Gives () out () ∧
      out.map.marks = [⟨0, 0, 0, 0, some "s", none⟩, ⟨1, 0, 0, 0, some "a", none⟩] ∧
      ∃ files, List.Forall₂ (Loaded (.ofGraph fork [])) out.traced files ∧
        out.map.marks.Perm ((files.zip out.offsets).flatMap fun f => f.1.map.marks.map (·.lower f.2)) := by
  have hb : Built (.ofGraph fork []) (ofGraph fork [] ["a"] {}) := ofGraph_built (by decide)
  have h := Action.gives_of_isOk (x := compileOutput (.ofGraph fork []) (ofGraph fork [] ["a"] {}) (some [⟨"a"⟩]))
    (by decide)
  obtain ⟨files, loaded, -, -, -, marks, -⟩ := compileOutput_marks h
  exact ⟨_, _, hb, h, by cbv, files, loaded, marks⟩

end Bundle

end ScriptBundler
