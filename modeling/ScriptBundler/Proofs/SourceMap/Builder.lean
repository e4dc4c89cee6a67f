import ScriptBundler.Proofs.Sorting
import ScriptBundler.SourceMap.Builder

/-!
# Tokens of a builder

A builder takes in the tokens of a map as they are, but for the line they stand on and the numbers of their sources and
names (`addMap_tokens`). Adding sources and names leaves the tokens alone, and a finished map holds the tokens of its
builder (`finish_tokens_perm`).
-/

namespace ScriptBundler.SourceMap.Builder

variable (b : Builder)

@[simp] theorem addSource_tokens (source : String) : (b.addSource source).2.tokens = b.tokens := by
  unfold addSource
  split <;> rfl

@[simp] theorem addSource_names (source : String) : (b.addSource source).2.names = b.names := by
  unfold addSource
  split <;> rfl

@[simp] theorem setContent_names (place : Nat) (content : String) : (b.setContent place content).names = b.names := rfl

@[simp] theorem setContent_tokens (place : Nat) (content : String) :
    (b.setContent place content).tokens = b.tokens := rfl

@[simp] theorem addName_tokens (name : String) : (b.addName name).2.tokens = b.tokens := by
  unfold addName
  split <;> rfl

@[simp] theorem addName_sources (name : String) : (b.addName name).2.sources = b.sources := by
  unfold addName
  split <;> rfl

@[simp] theorem addSources_tokens (sources : List (String × Option String)) :
    (b.addSources sources).2.tokens = b.tokens := by
  induction sources generalizing b with
  | nil => rfl
  | cons source sources ih =>
    rcases source with ⟨source, _ | content⟩
    · simp [addSources, ih]
    · simp [addSources, ih]

@[simp] theorem addSources_names (sources : List (String × Option String)) :
    (b.addSources sources).2.names = b.names := by
  induction sources generalizing b with
  | nil => rfl
  | cons source sources ih =>
    rcases source with ⟨source, _ | content⟩
    · simp [addSources, ih]
    · simp [addSources, ih]

@[simp] theorem addNames_tokens (names : List String) : (b.addNames names).2.tokens = b.tokens := by
  induction names generalizing b with
  | nil => rfl
  | cons name names ih => simp [addNames, ih]

@[simp] theorem addNames_sources (names : List String) : (b.addNames names).2.sources = b.sources := by
  induction names generalizing b with
  | nil => rfl
  | cons name names ih => simp [addNames, ih]

/-- The tokens of a map come behind those that are there, on lines further down and with other numbers for their sources
and names. -/
theorem addMap_tokens (m : SourceMap) (offset : Nat) :
    ∃ sources names, (b.addMap m offset).tokens = b.tokens ++ m.tokens.map (shifted sources names offset) := by
  let sources := b.addSources (m.sourceNames.zipIdx.map fun source => (source.1, m.content? source.2))
  let names := sources.2.addNames m.names
  refine ⟨sources.1, names.1, ?_⟩
  show names.2.tokens ++ _ = _
  rw [addNames_tokens, addSources_tokens]

theorem finish_tokens_perm : b.finish.tokens.Perm b.tokens := Sorting.sortBy_perm ..

end ScriptBundler.SourceMap.Builder
