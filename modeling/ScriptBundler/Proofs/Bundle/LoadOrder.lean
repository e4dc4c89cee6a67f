import ScriptBundler.Proofs.Bundle.Destination

/-!
# The order in which files are loaded

The common files with an output of their own are loaded first, then the output of an entry. Put together (`loadOrder`),
they hold each file that the entry leads to, no file twice, and each file behind what it depends on, unless that leads
back to it (`loadOrder_ordered`).

The key is that both lists come about in the same way: traces are added to a set one after the other, and each trace is
in order (`ordered_shared`). What is left of the entry's trace is what it adds to the common files (`loadOrder_eq`).
-/

namespace ScriptBundler

variable {σ : Type} {g : Graph}

namespace Graph

variable {trace : List Path → Action σ (List TracedFile)}

/-- Walks that are added to a set one after the other leave it in order. -/
private theorem Ordered.insertAll_walks {s : PathSet} (h : g.Ordered s.toList) (ps : List Path) :
    g.Ordered (s.insertAll (ps.flatMap fun p => (g.walk p).map (·.path))).toList := by
  induction ps generalizing s with
  | nil => exact h
  | cons p ps ih =>
    rw [List.flatMap_cons, PathSet.insertAll_append]
    exact ih (h.insertAll (walk_ordered g p))

/-- Shared files are kept in order. -/
theorem ordered_shared (hg : Steady trace g.walk) {entries : List Path} {option : CommonOption} {P : Partition}
    {w w' : σ} (h : (Partition.of trace entries option).Gives w P w') : g.Ordered P.shared.toList := by
  obtain ⟨⟨fs, w₁, -, -, hs⟩, -⟩ := Partition.gives_of h
  rw [closure_eq hg hs]
  exact ordered_nil.insertAll_walks _

end Graph

namespace Bundle

variable {c : Collaborators σ} {b : Bundle}

/-- The common files that are kept apart: all of them, if they have a destination. -/
def apart (b : Bundle) : PathSet := if b.destination.isSome then b.partition.common else .empty

/-- The common files that are kept apart, and behind them the files of a trace that are not among them. -/
def loadOrder (b : Bundle) (trace : List Path) : List Path := b.apart.toList ++ trace.filter (!b.apart.contains ·)

/-- Loading adds a trace to the common files. -/
theorem loadOrder_eq {trace : List Path} (h : trace.Pairwise fun p q => ¬ (p == q) = true) :
    b.loadOrder trace = (b.apart.insertAll trace).toList := (PathSet.toList_insertAll h).symm

private theorem Sound.ordered_apart (h : b.Sound c) (hg : Steady c.trace g.walk) : g.Ordered b.apart.toList := by
  obtain ⟨w, w', hP⟩ := h.partition
  unfold apart
  split
  · rw [(Partition.gives_of hP).2.1]
    split
    · exact Graph.ordered_shared hg hP
    · exact Graph.ordered_nil
  · exact Graph.ordered_nil

/-- The files of an entry's output, behind the common files unless the entry carries these itself. -/
private theorem Sound.listing_eq (h : b.Sound c) {e : Path} (he : e ∈ b.files) (trace : List Path) :
    (if b.isCarrier e then [] else b.apart.toList) ++ b.listing e trace = b.loadOrder trace := by
  unfold listing loadOrder apart
  cases hd : b.destination with
  | none =>
    have hc := h.not_isCarrier hd he
    simp [hc]
  | some d => by_cases hc : b.isCarrier e = true <;> simp [hc]

/-- When the common files are loaded first and then the output of an entry, no file is loaded twice, each file that the
entry leads to is loaded, and each file comes behind what it depends on, unless that leads back to it. -/
theorem loadOrder_ordered (hb : Built c b) (hg : Batched c.trace g.walk) {e : Path} (he : e ∈ b.files) {w w' : σ}
    {fs : List TracedFile} (h : (c.trace [e]).Gives w fs w') :
    (b.loadOrder (fs.map (·.path))).Pairwise (fun p q => ¬ (p == q) = true) ∧
    (∀ q, g.Reaches e q → ∃ p ∈ b.loadOrder (fs.map (·.path)), (p == q) = true) ∧
    g.Ordered (b.loadOrder (fs.map (·.path))) ∧
    ∀ {v v' : σ} {out : Compiled}, (b.compileOutput c (some [e])).Gives v out v' →
      (if b.isCarrier e then [] else b.apart.toList) ++ out.traced = b.loadOrder (fs.map (·.path)) := by
  obtain rfl : fs = g.walk e := hg.steady e w fs w' h
  have distinct : ((g.walk e).map (·.path)).Pairwise fun p q => ¬ (p == q) = true := by
    rw [List.pairwise_map]
    exact Graph.walk_distinct g e
  have added := loadOrder_eq (b := b) distinct
  refine ⟨?_, ?_, ?_, ?_⟩
  · rw [added]
    exact PathSet.distinct _
  · intro q hq
    obtain ⟨f, hf, hfq⟩ := Graph.exists_mem_walk.2 hq
    rw [added, ← PathSet.contains_iff, PathSet.contains_insertAll]
    exact .inr ⟨f.path, List.mem_map_of_mem hf, hfq⟩
  · rw [added]
    exact (hb.sound.ordered_apart hg.steady).insertAll (Graph.walk_ordered g e)
  · intro v v' out ho
    obtain ⟨fs, v₁, v₂, hfs, traced_eq⟩ := gives_compileOutput_entry (isEntry_of_mem he) ho
    rw [traced_eq, hg.steady e v₁ fs v₂ hfs]
    exact hb.sound.listing_eq he _

/-- The files of a ring are common, and an entry outside of it carries them. -/
theorem loadOrder_ordered_ring : ∃ (b : Bundle) (fs : List TracedFile), Built (.ofGraph .ring []) b ∧
    Batched (Collaborators.ofGraph .ring []).trace Graph.ring.walk ∧ (⟨"b"⟩ : Path) ∈ b.files ∧
    ((Collaborators.ofGraph .ring []).trace [⟨"b"⟩]).Gives () fs () ∧
    (b.loadOrder (fs.map (·.path))).map (·.text) = ["s", "a", "b"] ∧
    (b.loadOrder (fs.map (·.path))).Pairwise (fun p q => ¬ (p == q) = true) ∧
    Graph.ring.Ordered (b.loadOrder (fs.map (·.path))) := by
  have hb : Built (.ofGraph .ring []) (ofGraph .ring [] ["a", "b"] { common := .pattern "b" }) :=
    ofGraph_built (by decide +kernel)
  have hg : Batched (Collaborators.ofGraph .ring []).trace Graph.ring.walk := Graph.batched_trace rfl
  have he : (⟨"b"⟩ : Path) ∈ (ofGraph .ring [] ["a", "b"] { common := .pattern "b" }).files :=
    mem_of_text (by decide +kernel)
  have h := Action.gives_of_isOk (x := (Collaborators.ofGraph .ring []).trace [⟨"b"⟩]) (by decide +kernel)
  obtain ⟨distinct, -, ordered, -⟩ := loadOrder_ordered hb hg he h
  exact ⟨_, _, hb, hg, he, h, by decide +kernel, distinct, ordered⟩

end Bundle

end ScriptBundler
