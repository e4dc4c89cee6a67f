import ScriptBundler.Proofs.Bundle.Destination

/-!
# How many entries a file goes to

A partition is found from files that come twice in one trace of all entries, and the destinations of a file by tracing
the entries one at a time. On a graph the two agree (`destinations_count`): an uncommon file goes to one entry, a common
one to several, unless there is a place for common files, and a file that no entry leads to goes nowhere.

Both come down to the entries that lead to the file (`Graph.leaders`) and their number (`Graph.sharedBy_iff_leaders`).
-/

namespace ScriptBundler

variable {σ : Type} {g : Graph} {p : Path} {entries : List Path}

namespace Graph

/-- The entries whose walks list a file. -/
def leaders (g : Graph) (entries : List Path) (p : Path) : List Path :=
  entries.filter fun e => (g.walk e).any (·.path == p)

private theorem mem_leaders {e : Path} : e ∈ g.leaders entries p ↔ e ∈ entries ∧ g.Reaches e p := by
  rw [leaders, List.mem_filter, List.any_eq_true, exists_mem_walk]

open Classical in
/-- A file is shared if it has two leaders or more. -/
theorem sharedBy_iff_leaders : g.SharedBy entries p ↔ 2 ≤ (g.leaders entries p).length := by
  rw [sharedBy_iff, countP_walks, leaders, ← List.countP_eq_length_filter]
  have same : (entries.countP fun e => (g.walk e).any (·.path == p)) =
      entries.countP fun e => decide (g.Reaches e p) := by
    refine List.countP_congr fun e _ => ?_
    rw [List.any_eq_true, exists_mem_walk, decide_eq_true_iff]
  rw [same]

/-- A file that is led to and not shared has a single leader. -/
private theorem leaders_eq_singleton (reached : ∃ e ∈ entries, g.Reaches e p) (single : ¬ g.SharedBy entries p) :
    ∃ e ∈ entries, g.leaders entries p = [e] := by
  obtain ⟨e, he, hep⟩ := reached
  have positive : 0 < (g.leaders entries p).length := List.length_pos_of_mem (mem_leaders.2 ⟨he, hep⟩)
  rw [sharedBy_iff_leaders] at single
  obtain ⟨leader, only⟩ := List.length_eq_one_iff.1 (by omega : (g.leaders entries p).length = 1)
  have found : leader ∈ g.leaders entries p := by rw [only]; exact List.mem_singleton.2 rfl
  exact ⟨leader, (mem_leaders.1 found).1, only⟩

/-- A file is led to if the trace of all entries holds it. -/
private theorem exists_reaches_iff : (∃ e ∈ entries, g.Reaches e p) ↔
    ∃ q ∈ (entries.flatMap g.walk).map (·.path), (q == p) = true := by
  simp only [← exists_mem_walk, List.mem_map, List.mem_flatMap, exists_exists_and_eq_and]
  exact ⟨fun ⟨e, he, f, hf, same⟩ => ⟨f, ⟨e, he, hf⟩, same⟩, fun ⟨f, ⟨e, he, hf⟩, same⟩ => ⟨e, he, f, hf, same⟩⟩

private theorem SharedBy.exists_reaches (h : g.SharedBy entries p) : ∃ e ∈ entries, g.Reaches e p := by
  obtain ⟨i, j, a, b, -, ha, -, reached, -⟩ := h
  exact ⟨a, List.mem_of_getElem? ha, reached⟩

end Graph

private theorem entriesWith_succeeds {trace : List Path → Action σ (List TracedFile)}
    (h : ∀ e ∈ entries, (trace [e]).Succeeds) : (entriesWith trace p entries).Succeeds := by
  induction entries with
  | nil => exact .pure []
  | cons e es ih =>
    rw [List.forall_mem_cons] at h
    exact h.1.bind fun _ => (ih h.2).bind fun _ => .pure _

namespace Bundle

variable {c : Collaborators σ} {b : Bundle}

/-- Where a file goes is found if the entries can be traced. -/
private theorem destinations_succeeds (h : ∀ e ∈ b.files, (c.trace [e]).Succeeds) : (b.destinations c p).Succeeds := by
  unfold destinations destinationsOf
  split
  · exact .pure _
  · exact entriesWith_succeeds h

/-- On a graph, with shared files taken out, an uncommon file goes to a single entry. A common file goes to the
destination of the common files, or, if they have none, to several entries in their order. A file that is in no trace
goes nowhere. -/
theorem destinations_count (hb : Built c b) (hg : Batched c.trace g.walk)
    (enabled : b.options.common.isEnabled = true) (p : Path) (w : σ) :
    ((∀ e ∈ b.files, (c.trace [e]).Succeeds) → ∃ ds w', (b.destinations c p).Gives w ds w') ∧
    ∀ ds w', (b.destinations c p).Gives w ds w' →
      (b.partition.uncommon.contains p = true → ∃ e ∈ b.files, ds = [e]) ∧
      (b.partition.common.contains p = true → b.destination = none →
        2 ≤ ds.length ∧ ds.Sublist b.files ∧ ds.Pairwise fun d e => ¬ (d == e) = true) ∧
      (∀ d, b.partition.common.contains p = true → b.destination = some d → ds = [d]) ∧
      ((∀ q ∈ b.partition.all, ¬ (q == p) = true) → ds = []) := by
  refine ⟨fun traced => destinations_succeeds traced w, fun ds w' found => ?_⟩
  obtain ⟨v, v', partitioned⟩ := hb.sound.partition
  have common_iff : b.partition.common.contains p = true ↔ g.SharedBy b.files p := by
    rw [(Partition.gives_of partitioned).2.1, if_pos enabled]
    exact Graph.contains_shared_iff hg partitioned
  have uncommon_iff := Graph.contains_uncommon_iff hg partitioned (q := p)
  have all_iff : (∃ q ∈ b.partition.all, (q == p) = true) ↔ ∃ e ∈ b.files, g.Reaches e p := by
    rw [Partition.all_eq hg partitioned, Graph.exists_reaches_iff]
  rcases gives_destinations hg.steady found with ⟨d, hd, hc, rfl⟩ | ⟨elsewhere, e⟩
  · refine ⟨fun hu => absurd hc (uncommon_iff.1 hu).2, fun _ none => ?_, fun d' _ hd' => ?_, fun untraced => ?_⟩
    · rw [hd] at none
      cases none
    · rw [hd] at hd'
      cases hd'
      rfl
    · obtain ⟨q, hq, same⟩ := all_iff.2 (common_iff.1 hc).exists_reaches
      exact absurd same (untraced q hq)
  · have leaders_eq : ds = g.leaders b.files p := e
    refine ⟨fun hu => ?_, fun hc _ => ?_, fun d hc hd => absurd ⟨by rw [hd]; rfl, hc⟩ elsewhere, fun untraced => ?_⟩
    · obtain ⟨reached, not_common⟩ := uncommon_iff.1 hu
      rw [leaders_eq]
      exact Graph.leaders_eq_singleton reached (mt common_iff.2 not_common)
    · rw [leaders_eq]
      exact ⟨Graph.sharedBy_iff_leaders.1 (common_iff.1 hc), List.filter_sublist, hb.sound.distinct.filter _⟩
    · rw [leaders_eq, List.eq_nil_iff_forall_not_mem]
      intro e he
      obtain ⟨q, hq, same⟩ := all_iff.2 ⟨e, Graph.mem_leaders.1 he⟩
      exact untraced q hq same

/-- Of a ring both files are common, and go to each entry that leads to them; what asks for the ring goes to itself. -/
theorem destinations_count_ring : ∃ (b : Bundle) (ds own : List Path), Built (.ofGraph .ring []) b ∧
    Batched (Collaborators.ofGraph .ring []).trace Graph.ring.walk ∧ b.options.common.isEnabled = true ∧
    (∀ e ∈ b.files, ((Collaborators.ofGraph .ring []).trace [e]).Succeeds) ∧
    b.partition.common.contains ⟨"a"⟩ = true ∧ b.destination.isNone = true ∧
    (b.destinations (.ofGraph .ring []) ⟨"a"⟩).Gives () ds () ∧ 2 ≤ ds.length ∧ ds.Sublist b.files ∧
    b.partition.uncommon.contains ⟨"b"⟩ = true ∧ (b.destinations (.ofGraph .ring []) ⟨"b"⟩).Gives () own () ∧
    ∃ e ∈ b.files, own = [e] := by
  have hb : Built (.ofGraph .ring []) (ofGraph .ring [] ["a", "b"] { common := .enabled }) := ofGraph_built (by decide)
  have hg : Batched (Collaborators.ofGraph .ring []).trace Graph.ring.walk := Graph.batched_trace rfl
  have enabled : (ofGraph .ring [] ["a", "b"] { common := .enabled }).options.common.isEnabled = true := by decide
  have traced : ∀ e ∈ (ofGraph .ring [] ["a", "b"] { common := .enabled }).files,
      ((Collaborators.ofGraph .ring []).trace [e]).Succeeds := by
    intro e _ w
    exact ⟨_, _, rfl⟩
  have common : (ofGraph .ring [] ["a", "b"] { common := .enabled }).partition.common.contains ⟨"a"⟩ = true := by decide
  have uncommon : (ofGraph .ring [] ["a", "b"] { common := .enabled }).partition.uncommon.contains ⟨"b"⟩ = true := by
    decide
  have nowhere : (ofGraph .ring [] ["a", "b"] { common := .enabled }).destination.isNone = true := by decide
  obtain ⟨succeeds, counts⟩ := destinations_count hb hg enabled ⟨"a"⟩ ()
  obtain ⟨ds, _, found⟩ := succeeds traced
  obtain ⟨succeeds', counts'⟩ := destinations_count hb hg enabled ⟨"b"⟩ ()
  obtain ⟨own, _, found'⟩ := succeeds' traced
  obtain ⟨several, ordered, -⟩ := (counts ds _ found).2.1 common (Option.isNone_iff_eq_none.1 nowhere)
  exact ⟨_, ds, own, hb, hg, enabled, traced, common, nowhere, found, several, ordered, uncommon, found',
    (counts' own _ found').1 uncommon⟩

end Bundle

end ScriptBundler
