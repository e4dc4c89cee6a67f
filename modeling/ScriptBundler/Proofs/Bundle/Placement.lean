import ScriptBundler.Proofs.Bundle.Built
import ScriptBundler.Proofs.Path.Clean
import ScriptBundler.Proofs.Workspace

/-!
# Where outputs are written

A build writes to the output paths of its targets only (`build_inside`). They lie in the output directory, wherever
that is, if and only if the targets stay below the root (`forall_inside_outputPath_iff`): behind a root that is a prefix
as it is spelled, dots may lead back out of it.
-/

namespace ScriptBundler

open ScriptBundler.Path (Descends Inside)

/-- Read from the root, a path does not climb out of it. It is read from there if it begins with the steps of the root,
and otherwise if it has no file name that could be taken instead. -/
def Path.StaysBelow (p root : Path) : Prop :=
  (∃ rest, p.components = root.components ++ rest ∧ Descends rest) ∨
    (¬ root.components <+: p.components ∧ (p.fileName?.isSome = true ∨ Descends p.components))

theorem forall_inside_outputPath_iff {root p : Path} :
    (∀ out, Inside out (outputPath root out p)) ↔ p.StaysBelow root := by
  unfold outputPath Path.StaysBelow
  rcases h : p.stripPrefix? root with _ | rest
  · have outside := Path.not_prefix_of_stripPrefix? h
    have no_rest : ¬ ∃ rest, p.components = root.components ++ rest ∧ Descends rest := by
      rintro ⟨rest, e, -⟩
      exact outside ⟨rest, e.symm⟩
    simp only [no_rest, outside, false_or, not_false_eq_true, true_and]
    rw [Path.forall_inside_join_iff]
    cases hn : p.fileName? with
    | none => simp
    | some name => simpa using Path.descends_fileName? hn
  · have e := Path.components_of_stripPrefix? h
    have below : root.components <+: p.components := ⟨rest.components, e.symm⟩
    simp only [below, not_true_eq_false, false_and, or_false]
    rw [Path.forall_inside_join_iff]
    constructor
    · exact fun descends => ⟨rest.components, e, descends⟩
    · rintro ⟨rest', e', descends⟩
      rwa [List.append_cancel_left (e.symm.trans e')]

namespace Bundle

variable {σ : Type} {c : Collaborators σ} {b : Bundle} {write write' : Path → String → Action σ Output} {root out : Path}

/-- The path of the common files, if they get an output of their own. -/
def chunk? (b : Bundle) : Option Path := b.destination.filter (!b.isEntry ·)

/-- The paths whose outputs a build writes. -/
def targets (b : Bundle) : List Path := b.files ++ b.chunk?.toList

/-- A build writes the outputs of the entries and then the chunk. -/
theorem build_eq_chunk : b.build c write root out = (do
    let outputs ← b.buildEntries c write root out b.files
    match b.chunk? with
    | some d =>
      let text ← b.compileCommon c
      return outputs ++ [← write (outputPath root out d) text]
    | none => return outputs) := by
  unfold build chunk?
  cases b.destination with
  | none => rfl
  | some d => by_cases he : b.isEntry d = true <;> simp [Option.filter, he]

private theorem buildEntries_congr {entries : List Path}
    (h : ∀ e ∈ entries, ∀ text, write (outputPath root out e) text = write' (outputPath root out e) text) :
    b.buildEntries c write root out entries = b.buildEntries c write' root out entries := by
  unfold buildEntries
  induction entries with
  | nil => rfl
  | cons e entries ih =>
    rw [List.forall_mem_cons] at h
    rw [List.mapM_cons, List.mapM_cons, ih h.2]
    simp only [h.1]

private theorem map_path_buildEntries (hw : ∀ p text w o w', (write p text).Gives w o w' → o.path = p)
    {entries : List Path}
    {w w' : σ} {outputs : List Output} (h : (b.buildEntries c write root out entries).Gives w outputs w') :
    outputs.map (·.path) = entries.map (outputPath root out) := by
  have each := Action.gives_mapM h
  clear h
  induction each with
  | nil => rfl
  | cons given _ ih =>
    obtain ⟨w₁, w₂, given⟩ := given
    obtain ⟨text, w₃, -, written⟩ := Action.gives_bind.1 given
    rw [List.map_cons, List.map_cons, ih, hw _ _ _ _ _ written]

/-- A build writes nowhere but to the output paths of its targets, and it answers with them. An output path lies in the
output directory, whichever that is, if and only if its target stays below the root. -/
theorem build_inside (c : Collaborators σ) (b : Bundle) (root out : Path) :
    (∀ p ∈ b.targets, (∀ out, Inside out (outputPath root out p)) ↔ p.StaysBelow root) ∧
    (∀ write write' : Path → String → Action σ Output,
      (∀ p ∈ b.targets, ∀ text, write (outputPath root out p) text = write' (outputPath root out p) text) →
        b.build c write root out = b.build c write' root out) ∧
    ∀ write : Path → String → Action σ Output, (∀ p text w o w', (write p text).Gives w o w' → o.path = p) →
      ∀ w outputs w', (b.build c write root out).Gives w outputs w' →
        outputs.map (·.path) = b.targets.map (outputPath root out) := by
  refine ⟨fun p _ => forall_inside_outputPath_iff, ?_, ?_⟩
  · intro write write' same
    have files : ∀ e ∈ b.files, ∀ text, write (outputPath root out e) text = write' (outputPath root out e) text :=
      fun e he => same e (List.mem_append_left _ he)
    rw [build_eq_chunk, build_eq_chunk, buildEntries_congr files]
    cases hd : b.chunk? with
    | none => rfl
    | some d =>
      have chunk : ∀ text, write (outputPath root out d) text = write' (outputPath root out d) text :=
        same d (List.mem_append_right _ (by simp [hd]))
      simp only [chunk]
  · intro write reports w outputs w' h
    rw [build_eq_chunk] at h
    obtain ⟨own, w₁, hown, h⟩ := Action.gives_bind.1 h
    rw [targets, List.map_append, ← map_path_buildEntries reports hown]
    cases hd : b.chunk? with
    | none =>
      rw [hd] at h
      obtain ⟨rfl, -⟩ := Action.gives_pure.1 h
      simp
    | some d =>
      rw [hd] at h
      obtain ⟨text, w₂, -, h⟩ := Action.gives_bind.1 h
      obtain ⟨o, w₃, ho, h⟩ := Action.gives_bind.1 h
      obtain ⟨rfl, -⟩ := Action.gives_pure.1 h
      rw [List.map_append, List.map_singleton, reports _ _ _ _ _ ho]
      rfl

/-- A directory with one script and, beside it, another one. -/
def beside : Workspace where
  disk :=
    { workingDirectory := [],
      nodes := [(["p"], .directory 0), (["p", "a.js"], .file "A".toUTF8 0), (["x.js"], .file "X".toUTF8 0)] }

/-- Makes the bundle of one entry of the project in the directory. -/
def ofBeside (entry : String) : Action Workspace Bundle := Bundle.of (Workspace.collaborators ⟨"/p"⟩ []) [entry] {}

/-- Builds it into a directory below. -/
def buildBeside (b : Bundle) : Action Workspace (List Output) :=
  b.build (Workspace.collaborators ⟨"/p"⟩ []) Workspace.write ⟨"/p"⟩ ⟨"/p/dist"⟩

/-- The output of a script below the root lies in the output directory. -/
theorem build_inside_beside : ∃ b w₁ outputs w₂, (ofBeside "/p/a.js").Gives beside b w₁ ∧
    b.buildBeside.Gives w₁ outputs w₂ ∧ outputs.map (·.path) = b.targets.map (outputPath ⟨"/p"⟩ ⟨"/p/dist"⟩) ∧
    b.targets.map (·.text) = ["/p/a.js"] ∧ ∀ o ∈ outputs, Inside ⟨"/p/dist"⟩ o.path := by
  obtain ⟨b, w₁, made, texts, outputs, w₂, built⟩ : ∃ b w₁, (ofBeside "/p/a.js").Gives beside b w₁ ∧
      b.targets.map (·.text) = ["/p/a.js"] ∧ ∃ outputs w₂, b.buildBeside.Gives w₁ outputs w₂ :=
    ⟨_, _, Action.gives_from beside (by decide +kernel), by decide +kernel, _, _,
      Action.gives_from _ (by decide +kernel)⟩
  obtain ⟨stays, -, reports⟩ := build_inside (Workspace.collaborators ⟨"/p"⟩ []) b ⟨"/p"⟩ ⟨"/p/dist"⟩
  have paths := reports Workspace.write (fun p text w o w' h => (Workspace.gives_write.1 h).1 ▸ rfl) _ _ _ built
  refine ⟨b, w₁, outputs, w₂, made, built, paths, texts, fun o ho => ?_⟩
  obtain ⟨p, hp, e⟩ := List.mem_map.1 (paths ▸ List.mem_map_of_mem ho)
  have text : p.text ∈ ["/p/a.js"] := by
    rw [← texts]
    exact List.mem_map_of_mem hp
  have single : p ∈ [⟨"/p/a.js"⟩] := mem_of_text text
  rw [← e]
  refine (stays p hp).2 ?_ _
  rw [List.mem_singleton.1 single]
  exact .inl ⟨[.normal "a.js"], by decide, fun step hstep => ⟨"a.js", List.mem_singleton.1 hstep⟩⟩

/-- The entry is spelled with the steps of the root in front and two dots behind them. Its output is written beside the
output directory. -/
theorem build_escapes : ∃ b w₁ outputs w₂, (ofBeside "/p/../x.js").Gives beside b w₁ ∧
    b.buildBeside.Gives w₁ outputs w₂ ∧ b.files.map (·.text) = ["/p/../x.js"] ∧
    outputs.map (·.path.text) = ["/p/dist/../x.js"] ∧ (∀ o ∈ outputs, ¬ Inside ⟨"/p/dist"⟩ o.path) ∧
    w₁.disk.node? ["p", "x.js"] = none ∧ (w₂.disk.node? ["p", "x.js"]).isSome = true := by
  obtain ⟨b, w₁, made, files, outputs, w₂, built, texts, before, after⟩ :
      ∃ b w₁, (ofBeside "/p/../x.js").Gives beside b w₁ ∧ b.files.map (·.text) = ["/p/../x.js"] ∧
        ∃ outputs w₂, b.buildBeside.Gives w₁ outputs w₂ ∧ outputs.map (·.path.text) = ["/p/dist/../x.js"] ∧
          w₁.disk.node? ["p", "x.js"] = none ∧ (w₂.disk.node? ["p", "x.js"]).isSome = true :=
    ⟨_, _, Action.gives_from beside (by decide +kernel), by decide +kernel, _, _,
      Action.gives_from _ (by decide +kernel), by decide +kernel, by decide +kernel, by decide +kernel⟩
  refine ⟨b, w₁, outputs, w₂, made, built, files, texts, ?_, before, after⟩
  rintro o ho ⟨names, e⟩
  have text : o.path.text ∈ ["/p/dist/../x.js"] := by
    rw [← texts]
    exact List.mem_map.2 ⟨o, ho, rfl⟩
  have single : o.path ∈ [⟨"/p/dist/../x.js"⟩] := mem_of_text text
  rw [List.mem_singleton.1 single] at e
  have below : Path.cleanSteps ⟨"/p/dist"⟩ <+: Path.cleanSteps ⟨"/p/dist/../x.js"⟩ := ⟨_, e.symm⟩
  exact absurd below (by decide)

end Bundle

end ScriptBundler
