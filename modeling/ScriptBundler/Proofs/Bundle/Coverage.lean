import ScriptBundler.Build
import ScriptBundler.Proofs.Bundle.Output

/-!
# What a build leaves out

A build is meant to write each traced file into some output. It does (`build_covers_iff`), unless the bundle is
stranded: then the destination of the common files is an entry, so that they get no output of their own, and yet no
entry carries them. This comes of two readings of the pattern (`Stranded.exists_pattern`): the destination is compared
with the entries as a path, while an entry carries the common files if the pattern matches its text.

`buildParts` is the build with the parts of its outputs still at hand; `build_eq` says that it is the same build.
-/

namespace ScriptBundler.Bundle

variable {σ : Type} {c : Collaborators σ} {b : Bundle} {T : Path → List TracedFile}
  {write : Path → String → Action σ Output} {root out : Path}

/-- The outputs of entries and what they were rendered from. -/
def buildEntriesParts (c : Collaborators σ) (write : Path → String → Action σ Output) (b : Bundle) (root out : Path)
    (entries : List Path) : Action σ (List (Output × Compiled)) :=
  entries.mapM fun e => do
    let parts ← (b.compileOutput c (some [e])).during (.bundleEntry e)
    return (← write (outputPath root out e) parts.render, parts)

/-- All outputs of a bundle and what they were rendered from. -/
def buildParts (c : Collaborators σ) (write : Path → String → Action σ Output) (b : Bundle) (root out : Path) :
    Action σ (List (Output × Compiled)) := do
  let outputs ← b.buildEntriesParts c write root out b.files
  match b.destination with
  | some d =>
    if b.isEntry d then return outputs
    else
      let parts ← b.assemble c b.partition.common.toList []
      return outputs ++ [(← write (outputPath root out d) parts.render, parts)]
  | none => return outputs

private theorem mapM_map_fst {α β γ : Type} (f : α → Action σ (β × γ)) (xs : List α) :
    (xs.mapM fun x => Prod.fst <$> f x) = (List.map Prod.fst) <$> xs.mapM f := by
  induction xs with
  | nil => simp
  | cons x xs ih => simp [List.mapM_cons, ih]

private theorem buildEntries_eq (entries : List Path) :
    b.buildEntries c write root out entries = (List.map Prod.fst) <$> b.buildEntriesParts c write root out entries := by
  unfold buildEntries buildEntriesParts
  rw [← mapM_map_fst]
  congr 1
  funext e
  have h : b.compile c (some [e]) = Compiled.render <$> b.compileOutput c (some [e]) := by
    unfold compile
    simp
  rw [h, Action.during_map]
  simp

theorem build_eq : b.build c write root out = (List.map Prod.fst) <$> b.buildParts c write root out := by
  unfold build buildParts
  rw [buildEntries_eq]
  rcases b.destination with _ | d
  · simp
  · by_cases h : b.isEntry d = true <;> simp [h, compileCommon]

/-! ### The files of a build -/

/-- The common files get an output of their own. -/
def HasChunk (b : Bundle) : Prop := ∃ d, b.destination = some d ∧ ¬ b.isEntry d = true

/-- The common files are to go to an entry, but no entry carries them. -/
def Stranded (b : Bundle) : Prop :=
  (∃ d, b.destination = some d ∧ b.isEntry d = true) ∧ ∀ e ∈ b.files, ¬ b.isCarrier e = true

/-- A bundle is stranded only by a pattern that names an entry as a path and matches the text of none. -/
theorem Stranded.exists_pattern (h : b.Stranded) (hb : b.Sound c) : ∃ pattern,
    b.options.common.pattern? = some pattern ∧ b.destination = some ⟨pattern⟩ ∧ b.isEntry ⟨pattern⟩ = true ∧
      ∀ e ∈ b.files, ¬ Glob.pathMatches e.text pattern = true := by
  obtain ⟨⟨d, hd, he⟩, carriers⟩ := h
  obtain ⟨w, hw⟩ := hb.destination
  rw [hd, commonDestination?] at hw
  unfold isCarrier at carriers
  cases hp : b.options.common.pattern? with
  | none =>
    rw [hp] at hw
    cases hw
  | some pattern =>
    simp only [hp, Option.any_some] at carriers
    rw [hp, Option.bind_eq_bind, Option.bind_some, List.find?_eq_none.2 carriers, Option.none_or] at hw
    split at hw
    · cases hw
      exact ⟨pattern, rfl, hd, he, carriers⟩
    · cases hw

/-- The outputs of a build: those of the entries, and that of the common files if they get one. -/
private theorem gives_buildParts {w w' : σ} {parts : List (Output × Compiled)}
    (h : (b.buildParts c write root out).Gives w parts w') :
    ∃ own rest, parts = own ++ rest ∧
      List.Forall₂ (fun e o => ∃ w₁ w₂, (b.compileOutput c (some [e])).Gives w₁ o.2 w₂) b.files own ∧
      ((¬ b.HasChunk ∧ rest = []) ∨ (b.HasChunk ∧ ∃ o, rest = [o] ∧ o.2.traced = b.partition.common.toList)) := by
  obtain ⟨own, w₁, hown, h⟩ := Action.gives_bind.1 h
  have entries : List.Forall₂ (fun e o => ∃ w₁ w₂, (b.compileOutput c (some [e])).Gives w₁ o.2 w₂) b.files own := by
    refine (Action.gives_mapM hown).imp ?_
    rintro e o ⟨v₁, v₂, ho⟩
    obtain ⟨parts, v₃, hparts, ho⟩ := Action.gives_bind.1 ho
    obtain ⟨written, v₄, -, ho⟩ := Action.gives_bind.1 ho
    obtain ⟨rfl, -⟩ := Action.gives_pure.1 ho
    exact ⟨v₁, v₃, Action.gives_during.1 hparts⟩
  unfold HasChunk
  cases hd : b.destination with
  | none =>
    rw [hd] at h
    obtain ⟨rfl, -⟩ := Action.gives_pure.1 h
    exact ⟨own, [], (List.append_nil _).symm, entries, .inl ⟨by simp, rfl⟩⟩
  | some d =>
    rw [hd] at h
    by_cases he : b.isEntry d = true
    · simp only [he, if_true] at h
      obtain ⟨rfl, -⟩ := Action.gives_pure.1 h
      exact ⟨own, [], (List.append_nil _).symm, entries, .inl ⟨by simp [he], rfl⟩⟩
    · simp only [he] at h
      obtain ⟨chunk, w₂, hchunk, h⟩ := Action.gives_bind.1 h
      obtain ⟨written, w₃, -, h⟩ := Action.gives_bind.1 h
      obtain ⟨rfl, -⟩ := Action.gives_pure.1 h
      obtain ⟨files, -, rfl⟩ := gives_assemble hchunk
      exact ⟨own, _, rfl, entries, .inr ⟨⟨d, rfl, he⟩, _, rfl, rfl⟩⟩

/-- With a steady tracer the output of each entry is its listing. -/
private theorem map_traced (hT : Steady c.trace T) {entries : List Path} {own : List (Output × Compiled)}
    (h : List.Forall₂ (fun e o => ∃ w₁ w₂, (b.compileOutput c (some [e])).Gives w₁ o.2 w₂) entries own)
    (he : ∀ e ∈ entries, b.isEntry e = true) :
    own.map (·.2.traced) = entries.map fun e => b.listing e ((T e).map (·.path)) := by
  induction h with
  | nil => rfl
  | @cons e o entries own hd _ ih =>
    obtain ⟨w₁, w₂, ho⟩ := hd
    obtain ⟨fs, v₁, v₂, hfs, traced_eq⟩ := gives_compileOutput_entry (he e List.mem_cons_self) ho
    rw [List.map_cons, List.map_cons, ih fun e h => he e (List.mem_cons_of_mem _ h), traced_eq, hT e v₁ fs v₂ hfs]

/-- A file is in an output of a build if an entry lists it, or if it is common and the common files have an output. -/
private theorem exists_mem_buildParts (hT : Steady c.trace T) {w w' : σ} {parts : List (Output × Compiled)}
    (h : (b.buildParts c write root out).Gives w parts w') {p : Path} :
    (∃ o ∈ parts, ∃ q ∈ o.2.traced, (q == p) = true) ↔
      (∃ e ∈ b.files, ∃ q ∈ b.listing e ((T e).map (·.path)), (q == p) = true) ∨
        (b.HasChunk ∧ b.partition.common.contains p = true) := by
  obtain ⟨own, rest, rfl, entries, hrest⟩ := gives_buildParts h
  have own_traced := map_traced hT entries fun e => isEntry_of_mem
  have own_iff : (∃ o ∈ own, ∃ q ∈ o.2.traced, (q == p) = true) ↔
      ∃ e ∈ b.files, ∃ q ∈ b.listing e ((T e).map (·.path)), (q == p) = true := by
    have : (∃ l ∈ own.map (·.2.traced), ∃ q ∈ l, (q == p) = true) ↔
        ∃ l ∈ b.files.map fun e => b.listing e ((T e).map (·.path)), ∃ q ∈ l, (q == p) = true := by rw [own_traced]
    simpa only [List.mem_map, exists_exists_and_eq_and] using this
  simp only [List.mem_append, or_and_right, exists_or, own_iff]
  apply or_congr_right
  rcases hrest with ⟨hc, rfl⟩ | ⟨hc, o, rfl, ho⟩
  · simp [hc]
  · simp [hc, ho, PathSet.contains_iff]

/-- Which traced files a build writes: all of them, but for the common ones of a stranded bundle. -/
theorem build_covers_iff (hb : Built c b) (hT : Batched c.trace T) {w w' : σ} {outputs : List Output}
    (h : (b.build c write root out).Gives w outputs w') :
    ∃ parts, (b.buildParts c write root out).Gives w parts w' ∧ parts.map (·.1) = outputs ∧
      ∀ p ∈ b.partition.all, (∃ o ∈ parts, ∃ q ∈ o.2.traced, (q == p) = true) ↔
        ¬ (b.Stranded ∧ b.partition.common.contains p = true) := by
  rw [build_eq] at h
  obtain ⟨parts, hparts, e⟩ := Action.gives_map.1 h
  refine ⟨parts, hparts, e, fun p hp => ?_⟩
  rw [exists_mem_buildParts hT.steady hparts]
  simp only [exists_mem_listing]
  obtain ⟨v, v', hP⟩ := hb.sound.partition
  rw [Partition.all_eq hT hP] at hp
  obtain ⟨f, hf, rfl⟩ := List.mem_map.1 hp
  obtain ⟨e, he, hfe⟩ := List.mem_flatMap.1 hf
  have traced : ∃ q ∈ (T e).map (·.path), (q == f.path) = true := ⟨f.path, List.mem_map_of_mem hfe, BEq.rfl⟩
  -- only a common file can be left out of the entry that traces it
  by_cases hc : b.partition.common.contains f.path = true
  · simp only [hc, and_true]
    cases hd : b.destination with
    | none =>
      refine iff_of_true (.inl ⟨e, he, .inr ⟨traced, by simp⟩⟩) ?_
      rintro ⟨⟨d, hd', -⟩, -⟩
      rw [hd] at hd'
      cases hd'
    | some d => by_cases hde : b.isEntry d = true <;> simp [Stranded, HasChunk, hd, hde]
  · exact iff_of_true (.inl ⟨e, he, .inr ⟨traced, fun k => hc k.2⟩⟩) fun k => hc k.2

/-! ### Entries that share a file -/

/-- An output that is not written but measured. -/
def measure (p : Path) (text : String) : Action Unit Output := pure ⟨p, text.utf8ByteSize⟩

theorem build_covers_fork : ∃ (b : Bundle) (outputs : List Output) (parts : List (Output × Compiled)),
    Built (.ofGraph fork []) b ∧ Batched (Collaborators.ofGraph fork []).trace fork.walk ∧
      (b.build (.ofGraph fork []) measure ⟨"."⟩ ⟨"out"⟩).Gives () outputs () ∧
      (b.buildParts (.ofGraph fork []) measure ⟨"."⟩ ⟨"out"⟩).Gives () parts () ∧
      (⟨"s"⟩ : Path) ∈ b.partition.all ∧
      ((∃ o ∈ parts, ∃ q ∈ o.2.traced, (q == ⟨"s"⟩) = true) ↔
        ¬ (b.Stranded ∧ b.partition.common.contains ⟨"s"⟩ = true)) := by
  have hb : Built (.ofGraph fork []) (ofGraph fork [] ["a", "b"] { common := .enabled }) := ofGraph_built (by decide)
  have hT : Batched (Collaborators.ofGraph fork []).trace fork.walk := Graph.batched_trace rfl
  have h := Action.gives_of_isOk (x := build (.ofGraph fork []) measure
    (ofGraph fork [] ["a", "b"] { common := .enabled }) ⟨"."⟩ ⟨"out"⟩) (by decide)
  obtain ⟨parts, hparts, -, key⟩ := build_covers_iff hb hT h
  have hs : (⟨"s"⟩ : Path) ∈ (ofGraph fork [] ["a", "b"] { common := .enabled }).partition.all :=
    mem_of_text (by decide)
  exact ⟨_, _, parts, hb, hT, h, hparts, hs, key _ hs⟩

/-- A pattern that names an entry in another spelling strands the bundle, and the shared file is in no output. -/
theorem build_loses_common : ∃ (b : Bundle) (outputs : List Output) (parts : List (Output × Compiled)),
    Built (.ofGraph forkBelow [⟨"src/a.js"⟩]) b ∧
      Batched (Collaborators.ofGraph forkBelow [⟨"src/a.js"⟩]).trace forkBelow.walk ∧
      (b.build (.ofGraph forkBelow [⟨"src/a.js"⟩]) measure ⟨"."⟩ ⟨"out"⟩).Gives () outputs () ∧
      (b.buildParts (.ofGraph forkBelow [⟨"src/a.js"⟩]) measure ⟨"."⟩ ⟨"out"⟩).Gives () parts () ∧
      parts.map (·.1) = outputs ∧
      (⟨"src/s.js"⟩ : Path) ∈ b.partition.all ∧ ¬ ∃ o ∈ parts, ∃ q ∈ o.2.traced, (q == ⟨"src/s.js"⟩) = true := by
  have hb : Built (.ofGraph forkBelow [⟨"src/a.js"⟩])
      (ofGraph forkBelow [⟨"src/a.js"⟩] ["src//a.js", "src/b.js"] { common := .pattern "src/a.js" }) :=
    ofGraph_built (by decide +kernel)
  have h := Action.gives_of_isOk (x := buildParts (.ofGraph forkBelow [⟨"src/a.js"⟩]) measure
    (ofGraph forkBelow [⟨"src/a.js"⟩] ["src//a.js", "src/b.js"] { common := .pattern "src/a.js" })
    ⟨"."⟩ ⟨"out"⟩) (by decide +kernel)
  exact ⟨_, _, _, hb, Graph.batched_trace rfl, build_eq ▸ Action.gives_map.2 ⟨_, h, rfl⟩, h, rfl,
    mem_of_text (by decide +kernel), by decide +kernel⟩

end ScriptBundler.Bundle
