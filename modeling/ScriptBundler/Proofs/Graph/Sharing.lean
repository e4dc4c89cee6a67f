import ScriptBundler.Proofs.Graph.Walk
import ScriptBundler.Proofs.Partition

/-!
# Shared files are those that two entries lead to

A partition never counts entries: it takes the files that come twice in the trace of all entries, and all that these
lead to. On a graph this is the same as counting (`partition_reaches`): a file comes once for each entry that leads to
it (`countP_walks`), and what a shared file leads to is led to by the same entries.
-/

namespace ScriptBundler.Graph

variable {g : Graph} {σ : Type} {trace : List Path → Action σ (List TracedFile)} {p q : Path} {entries : List Path}

/-- The entries at two different places of a list lead to a file. -/
def SharedBy (g : Graph) (entries : List Path) (q : Path) : Prop :=
  ∃ (i j : Nat) (a b : Path), i ≠ j ∧ entries[i]? = some a ∧ entries[j]? = some b ∧ g.Reaches a q ∧ g.Reaches b q

private theorem SharedBy.trans (h : g.SharedBy entries p) (k : g.Reaches p q) : g.SharedBy entries q := by
  obtain ⟨i, j, a, b, hij, ha, hb, hap, hbp⟩ := h
  exact ⟨i, j, a, b, hij, ha, hb, hap.trans k, hbp.trans k⟩

/-! ### Counting -/

private theorem two_le_countP_of_lt {α : Type} {P : α → Bool} {l : List α} {i j : Nat} {a b : α} (hij : i < j)
    (ha : l[i]? = some a) (hb : l[j]? = some b) (hPa : P a = true) (hPb : P b = true) : 2 ≤ l.countP P := by
  have h₁ : 1 ≤ (l.take j).countP P := by
    rw [List.one_le_countP_iff]
    refine ⟨a, List.mem_of_getElem? (i := i) ?_, hPa⟩
    rw [List.getElem?_take_of_lt hij, ha]
  have h₂ : 1 ≤ (l.drop j).countP P := by
    rw [List.one_le_countP_iff]
    refine ⟨b, List.mem_of_getElem? (i := 0) ?_, hPb⟩
    rw [List.getElem?_drop, Nat.add_zero, hb]
  have e : (l.take j ++ l.drop j).countP P = l.countP P := by rw [List.take_append_drop]
  rw [List.countP_append] at e
  omega

private theorem two_le_countP_iff {α : Type} {P : α → Bool} {l : List α} :
    2 ≤ l.countP P ↔
      ∃ (i j : Nat) (a b : α), i ≠ j ∧ l[i]? = some a ∧ l[j]? = some b ∧ P a = true ∧ P b = true := by
  constructor
  · intro h
    induction l with
    | nil => simp at h
    | cons x l ih =>
      by_cases hx : P x = true
      · rw [List.countP_cons_of_pos hx] at h
        obtain ⟨b, hb, hPb⟩ := List.one_le_countP_iff.1 (Nat.le_of_succ_le_succ h)
        obtain ⟨j, hj⟩ := List.getElem?_of_mem hb
        exact ⟨0, j + 1, x, b, by omega, rfl, hj, hx, hPb⟩
      · rw [List.countP_cons_of_neg hx] at h
        obtain ⟨i, j, a, b, hij, ha, hb, hP⟩ := ih h
        exact ⟨i + 1, j + 1, a, b, by omega, ha, hb, hP⟩
  · rintro ⟨i, j, a, b, hij, ha, hb, hPa, hPb⟩
    rcases Nat.lt_or_gt_of_ne hij with hlt | hlt
    · exact two_le_countP_of_lt hlt ha hb hPa hPb
    · exact two_le_countP_of_lt hlt hb ha hPb hPa

open Classical in
private theorem countP_walk (p q : Path) :
    ((g.walk p).map (·.path)).countP (· == q) = if g.Reaches p q then 1 else 0 := by
  have hle : ((g.walk p).map (·.path)).countP (· == q) ≤ 1 := by
    apply PathSet.countP_le_one
    rw [List.pairwise_map]
    exact walk_distinct g p
  have hpos : 0 < ((g.walk p).map (·.path)).countP (· == q) ↔ g.Reaches p q := by
    rw [List.countP_pos_iff, ← exists_mem_walk]
    simp
  split
  · rename_i h
    have := hpos.2 h
    omega
  · rename_i h
    have := mt hpos.1 h
    omega

open Classical in
/-- In the trace of entries a file comes once for each entry that leads to it. -/
theorem countP_walks (entries : List Path) (q : Path) :
    ((entries.flatMap g.walk).map (·.path)).countP (· == q) = entries.countP fun e => decide (g.Reaches e q) := by
  induction entries with
  | nil => rfl
  | cons e entries ih =>
    rw [List.flatMap_cons, List.map_append, List.countP_append, ih, countP_walk, List.countP_cons, Nat.add_comm]
    simp

theorem sharedBy_iff : g.SharedBy entries q ↔ 2 ≤ ((entries.flatMap g.walk).map (·.path)).countP (· == q) := by
  rw [countP_walks, two_le_countP_iff]
  simp [SharedBy]

private theorem SharedBy.perm {entries' : List Path} (h : entries.Perm entries') :
    g.SharedBy entries q ↔ g.SharedBy entries' q := by
  rw [sharedBy_iff, sharedBy_iff, countP_walks, countP_walks, h.countP_eq]

/-! ### Partitions of a graph -/

private theorem traceOne_eq (hf : g.fixed = []) {fs : List TracedFile} (h : g.traceOne p = .ok fs) : fs = g.walk p := by
  unfold traceOne at h
  rw [hf] at h
  split at h
  · cases h
  · exact (Except.ok.inj h).symm

private theorem mapM_traceOne_eq (hf : g.fixed = []) {ps : List Path} {fss : List (List TracedFile)}
    (h : ps.mapM g.traceOne = .ok fss) : fss = ps.map g.walk := by
  induction ps generalizing fss with
  | nil => exact (Except.ok.inj h).symm
  | cons p ps ih =>
    rw [List.mapM_cons] at h
    cases hp : g.traceOne p with
    | error e => rw [hp] at h; cases h
    | ok fs =>
      cases hps : ps.mapM g.traceOne with
      | error e => rw [hp, hps] at h; cases h
      | ok rest =>
        rw [hp, hps] at h
        rw [← Except.ok.inj h, traceOne_eq hf hp, ih hps]
        rfl

/-- A graph without traces of its own is walked from each path that it traces. -/
theorem batched_trace (hf : g.fixed = []) : Batched (σ := σ) (fun ps => .lift (g.trace ps)) g.walk := by
  intro ps w fs w' h
  obtain ⟨e, -⟩ := Action.gives_lift.1 h
  unfold trace at e
  cases hps : ps.mapM g.traceOne with
  | error f => rw [hps] at e; cases e
  | ok fss =>
    rw [hps] at e
    rw [← Except.ok.inj e, mapM_traceOne_eq hf hps, List.flatMap_def]

section

variable {option : CommonOption} {P : Partition} {w w' : σ}

theorem contains_shared_iff (hg : Batched trace g.walk) (h : (Partition.of trace entries option).Gives w P w') :
    P.shared.contains q = true ↔ g.SharedBy entries q := by
  have twice : ∀ p, (repeated P.all).2.contains p = true ↔ g.SharedBy entries p := by
    intro p
    rw [contains_repeated, Partition.all_eq hg h, sharedBy_iff]
  rw [Partition.contains_shared hg.steady h]
  constructor
  · rintro ⟨p, hp, hq⟩
    exact ((twice p).1 (PathSet.contains_of_mem hp)).trans (exists_mem_walk.1 hq)
  · intro hq
    obtain ⟨p, hp, e⟩ := PathSet.contains_iff.1 ((twice q).2 hq)
    exact ⟨p, hp, exists_mem_walk.2 (.here e)⟩

theorem contains_uncommon_iff (hg : Batched trace g.walk)
    (h : (Partition.of trace entries option).Gives w P w') :
    P.uncommon.contains q = true ↔ (∃ e ∈ entries, g.Reaches e q) ∧ ¬ P.common.contains q = true := by
  rw [Partition.contains_uncommon h, Partition.all_eq hg h]
  apply and_congr_left'
  simp only [List.mem_map, List.mem_flatMap, exists_exists_and_eq_and, ← exists_mem_walk]
  exact ⟨fun ⟨f, ⟨e, he, hf⟩, hq⟩ => ⟨e, he, f, hf, hq⟩, fun ⟨e, he, f, hf, hq⟩ => ⟨f, ⟨e, he, hf⟩, hq⟩⟩

end

/-- A partition of entries by a tracer that walks a graph: shared is what the entries at two different places lead to,
it is taken out if the option asks for it, and all else that is led to is uncommon. The order of the entries does not
count. -/
theorem partition_reaches (hg : Batched trace g.walk) {option : CommonOption} {P : Partition} {w w' : σ}
    (h : (Partition.of trace entries option).Gives w P w') :
    (∀ q, P.shared.contains q = true ↔ g.SharedBy entries q) ∧
    P.common = (if option.isEnabled then P.shared else .empty) ∧
    (∀ q, P.uncommon.contains q = true ↔ (∃ e ∈ entries, g.Reaches e q) ∧ ¬ P.common.contains q = true) ∧
    ∀ {entries' : List Path} {P' : Partition} {v v' : σ}, entries.Perm entries' →
      (Partition.of trace entries' option).Gives v P' v' → ∀ q,
        P'.shared.contains q = P.shared.contains q ∧ P'.common.contains q = P.common.contains q ∧
          P'.uncommon.contains q = P.uncommon.contains q := by
  have common_eq := (Partition.gives_of h).2.1
  refine ⟨fun q => contains_shared_iff hg h, common_eq, fun q => contains_uncommon_iff hg h, ?_⟩
  intro entries' P' v v' hp h' q
  have shared_eq : P'.shared.contains q = P.shared.contains q := by
    rw [Bool.eq_iff_iff, contains_shared_iff hg h, contains_shared_iff hg h']
    exact (SharedBy.perm hp).symm
  have common_eq' : P'.common.contains q = P.common.contains q := by
    rw [common_eq, (Partition.gives_of h').2.1]
    split
    · exact shared_eq
    · rfl
  refine ⟨shared_eq, common_eq', ?_⟩
  rw [Bool.eq_iff_iff, contains_uncommon_iff hg h, contains_uncommon_iff hg h', common_eq']
  simp only [hp.mem_iff]

/-- Two files that need each other, and a third that needs one of them. -/
def ring : Graph :=
  { rows := [((⟨"a"⟩ : Path).components, [⟨"s"⟩]), ((⟨"s"⟩ : Path).components, [⟨"a"⟩]),
      ((⟨"b"⟩ : Path).components, [⟨"s"⟩])] }

theorem partition_reaches_ring : ∃ P : Partition,
    Batched (σ := Unit) (fun ps => .lift (ring.trace ps)) ring.walk ∧
      (Partition.of (fun ps => .lift (ring.trace ps)) [⟨"a"⟩, ⟨"b"⟩] .enabled).Gives () P () ∧
      (P.shared.contains ⟨"a"⟩ = true ↔ ring.SharedBy [⟨"a"⟩, ⟨"b"⟩] ⟨"a"⟩) ∧ P.shared.contains ⟨"a"⟩ = true ∧
      (P.uncommon.contains ⟨"b"⟩ = true ↔
        (∃ e ∈ ([⟨"a"⟩, ⟨"b"⟩] : List Path), ring.Reaches e ⟨"b"⟩) ∧ ¬ P.common.contains ⟨"b"⟩ = true) := by
  have h := Action.gives_of_isOk (x := Partition.of (fun ps => .lift (ring.trace ps)) [⟨"a"⟩, ⟨"b"⟩] .enabled)
    (by decide)
  have key := partition_reaches (batched_trace rfl) h
  exact ⟨_, batched_trace rfl, h, key.1 _, by decide, key.2.2.1 _⟩

end ScriptBundler.Graph
