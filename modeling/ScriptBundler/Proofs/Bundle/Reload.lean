import ScriptBundler.Bundle.Compile
import ScriptBundler.Proofs.Load.Record
import ScriptBundler.Proofs.SourceMap.Inline
import ScriptBundler.Proofs.Workspace

/-!
# Outputs that are loaded

An output ends with its map in a comment. When the code and the joiner in front of it end a line, the output is read as
the code without the newlines at its end and the map; in any other case the comment is no line of its own, and no map is
read (`render_extract`).
-/

namespace ScriptBundler

open SourceMap (EndsLine openLine commentOpening oldCommentOpening)

namespace Compiled

/-- What stands in front of the comment. -/
def text (c : Compiled) : String := c.code ++ c.joiner

/-- What stands there, without newlines at the end. -/
def stripped (c : Compiled) : String := String.ofList (Text.dropEndWhile (· = '\n') c.text.toList)

private theorem endsLine_of_joiner {c : Compiled} (h : c.joiner = defaultJoiner) : EndsLine c.text.toList := by
  have joiner_eq : c.joiner.toList = ['\n'] ++ ['\n'] := by
    rw [h]
    decide
  rw [text, String.toList_append, joiner_eq, ← List.append_assoc]
  exact .inr List.getLast?_concat

private theorem loadFresh_render {c : Compiled} {m : SourceMap}
    (h : SourceMap.extract c.render = .ok (some (c.stripped, m)))
    {root p : Path} {d : Disk} (read : d.readText p = .ok c.render) : loadFresh root d p = .ok ⟨c.stripped, m⟩ := by
  refine loadFresh_of_readText read ?_
  rw [SourceFile.ofText?, loadFresh.extracted, h]

/-- What is read of an output. If its code and joiner end a line, as they do with the default joiner, these are what stands
in front of the newlines at their end, and the map as it is read when it has been written; and so a file to which the
output is written is loaded. Any other output is read as a text without a map, unless its code and joiner leave a line
open that begins with an opening itself. -/
theorem render_extract (c : Compiled) :
    (EndsLine c.text.toList → ∀ m, SourceMap.decode c.map.encode.toUTF8.toList = .ok m →
      SourceMap.extract c.render = .ok (some (c.stripped, m)) ∧
      (∀ root d p, d.readText p = .ok c.render → loadFresh root d p = .ok ⟨c.stripped, m⟩) ∧
      ∀ root p o, ∀ w w' : Workspace, w.disk.Anchored → (Workspace.write p c.render).Gives w o w' →
        loadFresh root w'.disk p = .ok ⟨c.stripped, m⟩) ∧
    (c.joiner = defaultJoiner → EndsLine c.text.toList) ∧
    (¬ EndsLine c.text.toList → ¬ commentOpening.toList <+: openLine c.text.toList →
      ¬ oldCommentOpening.toList <+: openLine c.text.toList → SourceMap.extract c.render = .ok none) := by
  refine ⟨fun ends m accepted => ?_, endsLine_of_joiner, fun leaves new old =>
    SourceMap.extract_append_open leaves new old c.map⟩
  have found : SourceMap.extract c.render = .ok (some (c.stripped, m)) := SourceMap.extract_append ends accepted
  refine ⟨found, fun root d p => loadFresh_render found, fun root p o w w' anchored written => ?_⟩
  obtain ⟨-, -, lands⟩ := Workspace.write_lands anchored written
  exact loadFresh_render found lands.holds.readText

/-- An output of one script. -/
def single (joiner : String) : Compiled where
  blocks := ["let a"]
  map := .identity "a.js" "let a"
  offsets := [0]
  traced := [⟨"/a.js"⟩]
  bundled := [⟨"/a.js"⟩]
  joiner := joiner

/-- It is read again with the default joiner, and without a map when the joiner is a semicolon. -/
theorem render_extract_single :
    SourceMap.decode (single defaultJoiner).map.encode.toUTF8.toList = .ok (single defaultJoiner).map ∧
    SourceMap.extract (single defaultJoiner).render = .ok (some ("let a", (single defaultJoiner).map)) ∧
    (∃ o w, (Workspace.write ⟨"/o.js"⟩ (single defaultJoiner).render).Gives { disk := ⟨[], [], 0⟩ } o w ∧
      loadFresh ⟨"/"⟩ w.disk ⟨"/o.js"⟩ = .ok ⟨"let a", (single defaultJoiner).map⟩) ∧
    ¬ EndsLine (single ";").text.toList ∧ SourceMap.extract (single ";").render = .ok none := by
  have accepted : SourceMap.decode (single defaultJoiner).map.encode.toUTF8.toList =
      .ok (single defaultJoiner).map := by decide +kernel
  have stripped_eq : (single defaultJoiner).stripped = "let a" := by decide +kernel
  have opened : ¬ EndsLine (single ";").text.toList := by decide +kernel
  have written := Action.gives_from (x := Workspace.write ⟨"/o.js"⟩ (single defaultJoiner).render)
    { disk := ⟨[], [], 0⟩ } (by decide +kernel)
  obtain ⟨reads, ends, -⟩ := render_extract (single defaultJoiner)
  obtain ⟨found, -, loaded⟩ := reads (ends rfl) _ accepted
  have again := loaded ⟨"/"⟩ _ _ _ _ (Disk.anchored_of_root rfl) written
  rw [stripped_eq] at found again
  refine ⟨accepted, found, ⟨_, _, written, again⟩, opened, ?_⟩
  exact (render_extract (single ";")).2.2 opened (by decide +kernel) (by decide +kernel)

end Compiled

end ScriptBundler
