import ScriptBundler.Build
import ScriptBundler.Proofs.Disk.Grow
import ScriptBundler.Workspace

/-!
# Writing outputs

An output is written by two changes of the disk: the directories above it are made, and the file is given its content
(`gives_writeOutput`). Nothing else of a workspace changes, and nothing that lies elsewhere on its disk (`write_lands`).
-/

namespace ScriptBundler

/-- The disk with the directories above a path. -/
def Disk.makeParent (d : Disk) (p : Path) : Except DiskError Disk :=
  match p.parent? with
  | some parent => d.makeDirectories parent
  | none => .ok d

private theorem Disk.adds_makeParent {d d' : Disk} {p : Path} (h : d.makeParent p = .ok d') : d.Adds d' := by
  unfold makeParent at h
  split at h
  · exact adds_makeDirectories h
  · cases h
    exact .refl d

theorem gives_writeOutput {p : Path} {text : String} {d d' : Disk} {o : Output} :
    (writeOutput p text).Gives d o d' ↔
      ∃ d₁, d.makeParent p = .ok d₁ ∧ d₁.write p text.toUTF8 = .ok d' ∧ o = ⟨p, text.utf8ByteSize⟩ := by
  unfold writeOutput Disk.makeParent
  rcases p.parent? with _ | parent
  · dsimp only
    rw [Action.gives_get_bind]
    simp only [Except.ok.injEq, exists_eq_left']
    rcases d.write p text.toUTF8 with e | d₂
    · simp only [Action.not_gives_fail_bind, reduceCtorEq, false_and]
    · simp only [Action.gives_set_bind, Action.gives_pure, Except.ok.injEq]
      exact ⟨fun ⟨eo, ed⟩ => ⟨ed, eo.symm⟩, fun ⟨ed, eo⟩ => ⟨eo.symm, ed⟩⟩
  · dsimp only
    rw [Action.gives_get_bind]
    rcases d.makeDirectories parent with e | d₁
    · simp only [Action.not_gives_fail_bind, reduceCtorEq, false_and, exists_false]
    · simp only [Action.gives_set_bind, Action.gives_get_bind, Except.ok.injEq, exists_eq_left']
      rcases d₁.write p text.toUTF8 with e | d₂
      · simp only [Action.not_gives_fail_bind, reduceCtorEq, false_and]
      · simp only [Action.gives_set_bind, Action.gives_pure, Except.ok.injEq]
        exact ⟨fun ⟨eo, ed⟩ => ⟨ed, eo.symm⟩, fun ⟨ed, eo⟩ => ⟨eo.symm, ed⟩⟩

namespace Workspace

/-- Writes a file on the disk of a workspace. -/
def write (p : Path) (text : String) : Action Workspace Output := onDisk (writeOutput p text)

private theorem gives_onDisk {α : Type} {x : Action Disk α} {w w' : Workspace} {a : α} :
    (onDisk x).Gives w a w' ↔ ∃ d, x.Gives w.disk a d ∧ w' = { w with disk := d } := by
  have e : onDisk x w = ((x w.disk).1, { w with disk := (x w.disk).2 }) := rfl
  unfold Action.Gives
  rw [e]
  rcases x w.disk with ⟨f | b, d⟩ <;> simp [eq_comm]

theorem gives_write {p : Path} {text : String} {w w' : Workspace} {o : Output} :
    (write p text).Gives w o w' ↔ o = ⟨p, text.utf8ByteSize⟩ ∧
      ∃ d d', w.disk.makeParent p = .ok d ∧ d.write p text.toUTF8 = .ok d' ∧ w' = { w with disk := d' } := by
  unfold write
  simp only [gives_onDisk, gives_writeOutput]
  exact ⟨fun ⟨d', ⟨d, made, written, eo⟩, e⟩ => ⟨eo, d, d', made, written, e⟩,
    fun ⟨eo, d, d', made, written, e⟩ => ⟨d', ⟨d, made, written, eo⟩, e⟩⟩

theorem write_lands {p : Path} {text : String} {w w' : Workspace} {o : Output} (anchored : w.disk.Anchored)
    (h : (write p text).Gives w o w') :
    o = ⟨p, text.utf8ByteSize⟩ ∧ w' = { w with disk := w'.disk } ∧ w.disk.Lands w'.disk p text := by
  obtain ⟨rfl, d, d', made, written, rfl⟩ := gives_write.1 h
  exact ⟨rfl, rfl, anchored.lands (Disk.adds_makeParent made) written⟩

end Workspace

end ScriptBundler
