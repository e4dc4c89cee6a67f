import ScriptBundler.Partition
import ScriptBundler.Proofs.Action
import ScriptBundler.Proofs.PathSet

/-!
# What a partition holds

* `Steady` and `Batched` say that a tracer answers alike whenever it is asked: for single paths, and for lists of paths
  with the traces of the single ones one after the other;
* `contains_repeated` says that the repeated files are those that a list holds twice;
* `Partition.gives_of` takes the making of a partition apart, and the lemmas behind it say what its parts hold when
  the tracer is steady;
* the making of a partition follows that of another one if the traces do (`Partition.follows`).
-/

namespace ScriptBundler

variable {σ : Type} {trace : List Path → Action σ (List TracedFile)} {T : Path → List TracedFile}

/-- Whenever a tracer traces one path, it answers with the same trace. -/
def Steady (trace : List Path → Action σ (List TracedFile)) (T : Path → List TracedFile) : Prop :=
  ∀ p w fs w', (trace [p]).Gives w fs w' → fs = T p

/-- Whenever a tracer traces paths, it answers with the same traces of the single paths, one after the other. -/
def Batched (trace : List Path → Action σ (List TracedFile)) (T : Path → List TracedFile) : Prop :=
  ∀ ps w fs w', (trace ps).Gives w fs w' → fs = ps.flatMap T

theorem Batched.steady (h : Batched trace T) : Steady trace T := by
  intro p w fs w' hp
  rw [h [p] w fs w' hp, List.flatMap_singleton]

/-! ### Repeated files -/

/-- One step of `repeated`. -/
private def note (sets : PathSet × PathSet) (p : Path) : PathSet × PathSet :=
  if sets.1.contains p then (sets.1, sets.2.insert p) else (sets.1.insert p, sets.2)

private theorem repeated_eq (ps : List Path) : repeated ps = ps.foldl note (.empty, .empty) := rfl

private theorem note_fst (sets : PathSet × PathSet) (p : Path) : (note sets p).1 = sets.1.insert p := by
  unfold note
  split
  · rename_i h
    exact (PathSet.insert_of_contains h).symm
  · rfl

private theorem contains_note_snd {sets : PathSet × PathSet} {p q : Path} :
    (note sets p).2.contains q = true ↔
      sets.2.contains q = true ∨ (sets.1.contains q = true ∧ (p == q) = true) := by
  unfold note
  split
  · rename_i h
    rw [PathSet.contains_insert]
    exact or_congr_right ⟨fun e => ⟨PathSet.contains_congr e ▸ h, e⟩, fun e => e.2⟩
  · rename_i h
    exact ⟨.inl, fun hq => hq.elim id fun e => absurd (PathSet.contains_congr e.2 ▸ e.1) h⟩

private theorem foldl_note_fst (ps : List Path) (sets : PathSet × PathSet) :
    (ps.foldl note sets).1 = sets.1.insertAll ps := by
  induction ps generalizing sets with
  | nil => rfl
  | cons p ps ih =>
    rw [List.foldl_cons, ih, note_fst]
    rfl

private theorem contains_foldl_note_snd {q : Path} (ps : List Path) (sets : PathSet × PathSet) :
    (ps.foldl note sets).2.contains q = true ↔
      sets.2.contains q = true ∨ (sets.1.contains q = true ∧ 1 ≤ ps.countP (· == q)) ∨ 2 ≤ ps.countP (· == q) := by
  induction ps generalizing sets with
  | nil => simp
  | cons p ps ih =>
    rw [List.foldl_cons, ih, note_fst, contains_note_snd, PathSet.contains_insert, List.countP_cons]
    by_cases e : (p == q) = true
    · by_cases h : sets.1.contains q = true <;> simp only [e, h] <;> grind
    · simp [e]

/-- The paths of a list, each at its first place. -/
private theorem repeated_fst (ps : List Path) : (repeated ps).1 = .ofList ps := foldl_note_fst ps _

/-- The paths that a list holds twice. -/
theorem contains_repeated {ps : List Path} {q : Path} :
    (repeated ps).2.contains q = true ↔ 2 ≤ ps.countP (· == q) := by
  rw [repeated_eq, contains_foldl_note_snd]
  simp

/-! ### Closures -/

private theorem foldlM_closure_eq (hT : Steady trace T) {ps : List Path} {found s : PathSet} {w w' : σ}
    (h : Action.Gives (ps.foldlM (fun found p => return found.insertAll ((← trace [p]).map (·.path))) found) w s w') :
    s = found.insertAll (ps.flatMap fun p => (T p).map (·.path)) := by
  induction ps generalizing found w with
  | nil =>
    rw [List.foldlM_nil] at h
    obtain ⟨rfl, -⟩ := Action.gives_pure.1 h
    rfl
  | cons p ps ih =>
    rw [List.foldlM_cons] at h
    obtain ⟨next, w₁, hp, h⟩ := Action.gives_bind.1 h
    obtain ⟨fs, w₂, hfs, hp⟩ := Action.gives_bind.1 hp
    obtain ⟨rfl, rfl⟩ := Action.gives_pure.1 hp
    rw [ih h, hT p w fs w₂ hfs, List.flatMap_cons, PathSet.insertAll_append]

/-- A closure is what the traces hold, put in one after the other. -/
theorem closure_eq (hT : Steady trace T) {ps : List Path} {s : PathSet} {w w' : σ}
    (h : (closure trace ps).Gives w s w') : s = .ofList (ps.flatMap fun p => (T p).map (·.path)) :=
  foldlM_closure_eq hT h

private theorem contains_closure (hT : Steady trace T) {ps : List Path} {s : PathSet} {w w' : σ}
    (h : (closure trace ps).Gives w s w') {q : Path} :
    s.contains q = true ↔ ∃ p ∈ ps, ∃ f ∈ T p, (f.path == q) = true := by
  rw [closure_eq hT h, PathSet.contains_ofList]
  simp only [List.mem_flatMap, List.mem_map]
  constructor
  · rintro ⟨r, ⟨p, hp, f, hf, rfl⟩, e⟩
    exact ⟨p, hp, f, hf, e⟩
  · rintro ⟨p, hp, f, hf, e⟩
    exact ⟨f.path, ⟨p, hp, f, hf, rfl⟩, e⟩

/-! ### Partitions -/

namespace Partition

variable {entries : List Path} {option : CommonOption} {P : Partition} {w w' : σ}

/-- How the parts of a partition come about. -/
theorem gives_of (h : (Partition.of trace entries option).Gives w P w') :
    (∃ fs w₁, (trace entries).Gives w fs w₁ ∧ P.all = fs.map (·.path) ∧
      (closure trace (repeated P.all).2.toList).Gives w₁ P.shared w') ∧
    P.common = (if option.isEnabled then P.shared else .empty) ∧
    P.uncommon = (PathSet.ofList P.all).filter (!P.common.contains ·) := by
  obtain ⟨fs, w₁, hfs, h⟩ := Action.gives_bind.1 h
  obtain ⟨shared, w₂, hs, h⟩ := Action.gives_bind.1 h
  obtain ⟨rfl, rfl⟩ := Action.gives_pure.1 h
  exact ⟨⟨fs, w₁, hfs, rfl, hs⟩, rfl, by rw [← repeated_fst]; rfl⟩

theorem all_eq (hT : Batched trace T) (h : (Partition.of trace entries option).Gives w P w') :
    P.all = (entries.flatMap T).map (·.path) := by
  obtain ⟨⟨fs, w₁, hfs, e, -⟩, -⟩ := gives_of h
  rw [e, hT entries w fs w₁ hfs]

/-- Shared is what stands in the trace of a file that comes twice. -/
theorem contains_shared (hT : Steady trace T) (h : (Partition.of trace entries option).Gives w P w') {q : Path} :
    P.shared.contains q = true ↔ ∃ p ∈ (repeated P.all).2.toList, ∃ f ∈ T p, (f.path == q) = true := by
  obtain ⟨⟨fs, w₁, -, -, hs⟩, -⟩ := gives_of h
  exact contains_closure hT hs

/-- All else is uncommon. -/
theorem contains_uncommon (h : (Partition.of trace entries option).Gives w P w') {q : Path} :
    P.uncommon.contains q = true ↔ (∃ p ∈ P.all, (p == q) = true) ∧ ¬ P.common.contains q = true := by
  rw [(gives_of h).2.2, PathSet.contains_filter fun p q e => by rw [PathSet.contains_congr e], PathSet.contains_ofList]
  simp

end Partition

/-! ### Partitions made again -/

section Again

variable {τ : Type} {J : σ → Prop} {I : τ → Prop} {retrace : List Path → Action τ (List TracedFile)}

theorem closure_follows (h : ∀ ps, (trace ps).Follows J I (retrace ps)) (ps : List Path) :
    (closure trace ps).Follows J I (closure retrace ps) := by
  unfold closure
  exact .foldlM (fun _ p => (h [p]).bind fun _ => .pure _) ps _

/-- The same partition comes from the same traces. -/
theorem Partition.follows (h : ∀ ps, (trace ps).Follows J I (retrace ps)) (entries : List Path)
    (option : CommonOption) : (Partition.of trace entries option).Follows J I (Partition.of retrace entries option) :=
  (h entries).bind fun _ => (closure_follows h _).bind fun _ => .pure _

end Again

end ScriptBundler
