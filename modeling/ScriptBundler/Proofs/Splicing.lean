import ScriptBundler.Proofs.Bundle.Built

/-!
# Partitions by lists

A partition can also be made with lists alone: a file is traced again for each time it comes back, and what its trace
holds is spliced out of the list of files that came once (`spliced`). The lists are those of the partition, in the same
order, and both ways fail alike (`spliced_partition`), as long as the tracer answers alike for equal paths.

* `splice_eq_filter`: to remove a path by its place is to leave it out, since it has only one;
* `foldl_move`: files that move from one list to the other do so as they are put into a set;
* `movedBy_eq`: a file that comes back once more has nothing left to move;
* `Graph.repeats`: a tracer that follows a graph answers alike.
-/

namespace ScriptBundler

variable {σ : Type} {I : σ → Prop} {trace : List Path → Action σ (List TracedFile)}
  {T : List Path → Attempted (List TracedFile)}

/-! ### The list algorithm -/

/-- The first occurrences of paths in a list, and all later ones. -/
def occurrences (ps : List Path) : List Path × List Path :=
  ps.foldl (fun (first, later) p => if first.any (· == p) then (first, later ++ [p]) else (first ++ [p], later)) ([], [])

/-- Removes a path from a list by its place. -/
def splice (ps : List Path) (p : Path) : List Path :=
  match ps.findIdx? (· == p) with
  | some i => ps.eraseIdx i
  | none => ps

/-- The two lists on which the algorithm works. -/
structure Splicing where
  common : List Path := []
  unique : List Path
  deriving Inhabited

/-- Appends a path to the common list if it is not there yet, and splices it out of the other one. -/
def Splicing.move (s : Splicing) (p : Path) : Splicing where
  common := if s.common.any (· == p) then s.common else s.common ++ [p]
  unique := splice s.unique p

/-- Splits the files that the entries need. Each later occurrence of a file is traced again. -/
def spliced (trace : List Path → Action σ (List TracedFile)) (entries : List Path) :
    Action σ (List Path × Splicing) := do
  let all := (← trace entries).map (·.path)
  let (first, later) := occurrences all
  let s ← later.foldlM (fun s p => return ((← trace [p]).map (·.path)).foldl Splicing.move s) { unique := first }
  return (all, s)

/-- The lists of a partition. -/
def Partition.lists (P : Partition) : List Path × Splicing := (P.all, ⟨P.common.toList, P.uncommon.toList⟩)

/-! ### Tracers that repeat themselves -/

/-- Both fail, or both list the same paths, however they are spelled. -/
def SameFiles : Attempted (List TracedFile) → Attempted (List TracedFile) → Prop
  | .ok fs, .ok gs => List.Forall₂ (fun f g => (f.path == g.path) = true) fs gs
  | .error _, .error _ => True
  | _, _ => False

/-- Begun in a world of `I`, the tracer answers or fails as `T` says and ends in such a world; and it answers alike for
equal paths. -/
structure Repeats (I : σ → Prop) (trace : List Path → Action σ (List TracedFile))
    (T : List Path → Attempted (List TracedFile)) : Prop where
  yields : ∀ ps, (trace ps).Yields I (T ps)
  congr : ∀ p q, (p == q) = true → SameFiles (T [p]) (T [q])

/-- The paths that the trace of a file lists. -/
def pathsOf (T : List Path → Attempted (List TracedFile)) (p : Path) : Attempted (List Path) :=
  (T [p]).map (List.map (·.path))

/-- The trace of an equal path does not fail either, and lists no other paths. -/
private theorem Repeats.exists_pathsOf (hT : Repeats I trace T) {p q : Path} (h : (p == q) = true) {ps : List Path}
    (hp : pathsOf T p = .ok ps) : ∃ qs, pathsOf T q = .ok qs ∧ ∀ y ∈ qs, ∃ x ∈ ps, (x == y) = true := by
  have same := hT.congr p q h
  unfold pathsOf at hp ⊢
  rcases ep : T [p] with e | fs
  · rw [ep] at hp
    cases hp
  · rcases eq : T [q] with e | gs
    · rw [ep, eq] at same
      exact same.elim
    · rw [ep, eq] at same
      rw [ep] at hp
      cases hp
      refine ⟨gs.map (·.path), rfl, fun y hy => ?_⟩
      obtain ⟨g, hg, rfl⟩ := List.mem_map.1 hy
      obtain ⟨i, hi, rfl⟩ := List.getElem_of_mem hg
      have hi' : i < fs.length := by rwa [same.length_eq]
      exact ⟨fs[i].path, List.mem_map_of_mem (List.getElem_mem hi'), same.get hi' hi⟩

/-! ### Occurrences -/

private theorem PathSet.any_toList {s : PathSet} {p : Path} : s.toList.any (· == p) = s.contains p := by
  rw [Bool.eq_iff_iff, List.any_eq_true, contains_iff]

/-- The files that are repeated are those that occur later, each at its first place. -/
private theorem repeated_eq_occurrences (ps : List Path) :
    (repeated ps).1.toList = (occurrences ps).1 ∧ (repeated ps).2 = .ofList (occurrences ps).2 := by
  induction ps using List.reverseRecOn with
  | nil => exact ⟨rfl, rfl⟩
  | append_singleton ps p ih =>
    obtain ⟨first, later⟩ := ih
    unfold repeated occurrences at first later ⊢
    rw [List.foldl_concat, List.foldl_concat]
    simp only [← first, PathSet.any_toList]
    split
    · rw [later]
      exact ⟨rfl, PathSet.insertAll_concat.symm⟩
    · rename_i new
      exact ⟨PathSet.toList_insert new, later⟩

private theorem PathSet.insertAll_of_contains {s : PathSet} {ps : List Path} (h : ∀ p ∈ ps, s.contains p = true) :
    s.insertAll ps = s := by
  induction ps with
  | nil => rfl
  | cons p ps ih =>
    rw [List.forall_mem_cons] at h
    show (s.insert p).insertAll ps = s
    rw [insert_of_contains h.1, ih h.2]

/-! ### Moving files -/

private theorem splice_cons (p q : Path) (ps : List Path) :
    splice (q :: ps) p = if (q == p) = true then ps else q :: splice ps p := by
  unfold splice
  rw [List.findIdx?_cons]
  by_cases e : (q == p) = true
  · rw [if_pos e, if_pos e]
    rfl
  · rw [if_neg e, if_neg e]
    cases ps.findIdx? (· == p) <;> rfl

/-- A path is removed with all its occurrences if it has only one. -/
theorem splice_eq_filter {ps : List Path} (h : ps.Pairwise fun p q => ¬ (p == q) = true) (p : Path) :
    splice ps p = ps.filter (!· == p) := by
  induction ps with
  | nil => rfl
  | cons q ps ih =>
    rw [List.pairwise_cons] at h
    rw [splice_cons]
    by_cases e : (q == p) = true
    · have others : ∀ r ∈ ps, (!r == p) = true := by
        intro r hr
        have apart : ¬ (r == p) = true := fun k => h.1 r hr (BEq.trans e (BEq.symm k))
        simpa using apart
      rw [if_pos e, List.filter_cons_of_neg (by simp [e]), List.filter_eq_self.2 others]
    · rw [if_neg e, List.filter_cons_of_pos (by simp [e]), ih h.2]

/-- The lists when the files of a set have been moved. -/
def Splicing.after (first : List Path) (found : PathSet) : Splicing := ⟨found.toList, first.filter (!found.contains ·)⟩

private theorem Splicing.after_insert {first : List Path} (h : first.Pairwise fun p q => ¬ (p == q) = true)
    (found : PathSet) (p : Path) : (after first found).move p = after first (found.insert p) := by
  have unique : splice (first.filter (!found.contains ·)) p = first.filter (!(found.insert p).contains ·) := by
    rw [splice_eq_filter (h.filter _), List.filter_filter]
    refine List.filter_congr fun q _ => ?_
    have inserted : (found.insert p).contains q = (found.contains q || q == p) := by
      rw [Bool.eq_iff_iff, PathSet.contains_insert, Bool.or_eq_true, BEq.comm]
    rw [inserted, Bool.not_or, Bool.and_comm]
  unfold move after
  simp only [unique, PathSet.any_toList]
  split
  · rename_i there
    rw [PathSet.insert_of_contains there]
  · rename_i new
    rw [PathSet.toList_insert new]

theorem Splicing.foldl_move {first : List Path} (h : first.Pairwise fun p q => ¬ (p == q) = true) (ps : List Path)
    (found : PathSet) : ps.foldl move (after first found) = after first (found.insertAll ps) := by
  induction ps generalizing found with
  | nil => rfl
  | cons p ps ih =>
    rw [List.foldl_cons, after_insert h]
    exact ih (found.insert p)

/-! ### Files that come back -/

/-- The closure of files whose traces are known. -/
def closureOf (T : List Path → Attempted (List TracedFile)) (ps : List Path) : Attempted PathSet :=
  ps.foldlM (fun found p => (pathsOf T p).map found.insertAll) .empty

/-- The lists when files have been moved whose traces are known. -/
def movedBy (T : List Path → Attempted (List TracedFile)) (first later : List Path) : Attempted Splicing :=
  later.foldlM (fun s p => (pathsOf T p).map fun ps => ps.foldl Splicing.move s) { unique := first }

private theorem foldlM_concat {α β : Type} (f : β → α → Attempted β) (xs : List α) (x : α) (b : β) :
    (xs ++ [x]).foldlM f b = (xs.foldlM f b >>= fun b => f b x) := by
  simp [List.foldlM_append]

/-- Nothing is left to be moved for a file that comes back once more, so the lists are those of the closure of the files,
each taken once. -/
theorem movedBy_eq (hT : Repeats I trace T) {first : List Path} (h : first.Pairwise fun p q => ¬ (p == q) = true)
    (later : List Path) :
    movedBy T first later = (closureOf T (PathSet.ofList later).toList).map (Splicing.after first) ∧
      ∀ found, closureOf T (PathSet.ofList later).toList = .ok found →
        ∀ p ∈ later, ∃ ps, pathsOf T p = .ok ps ∧ ∀ q ∈ ps, found.contains q = true := by
  induction later using List.reverseRecOn with
  | nil =>
    refine ⟨?_, by simp⟩
    have nothing : Splicing.after first .empty = { unique := first } := by simp [Splicing.after]
    show Except.ok _ = Except.ok _
    rw [nothing]
  | append_singleton later p ih =>
    obtain ⟨moved, closed⟩ := ih
    rw [movedBy, foldlM_concat, ← movedBy, moved]
    by_cases there : (PathSet.ofList later).contains p = true
    · -- an equal file has been traced before, and all that the trace of `p` holds has been moved then
      have same : PathSet.ofList (later ++ [p]) = .ofList later := by
        rw [PathSet.ofList, PathSet.insertAll_concat]
        exact PathSet.insert_of_contains there
      rw [same]
      rcases e : closureOf T (PathSet.ofList later).toList with f | found
      · exact ⟨rfl, fun _ none => by cases none⟩
      · obtain ⟨q, hq, hqp⟩ := PathSet.contains_ofList.1 there
        obtain ⟨qs, hqs, found_qs⟩ := closed found e q hq
        obtain ⟨ps, hps, equal⟩ := hT.exists_pathsOf hqp hqs
        have found_ps : ∀ y ∈ ps, found.contains y = true := by
          intro y hy
          obtain ⟨x, hx, e⟩ := equal y hy
          rw [← PathSet.contains_congr e]
          exact found_qs x hx
        refine ⟨?_, ?_⟩
        · show (pathsOf T p).map (fun ps => ps.foldl Splicing.move (Splicing.after first found)) = _
          rw [hps]
          show Except.ok (ps.foldl Splicing.move (.after first found)) = Except.ok _
          rw [Splicing.foldl_move h, PathSet.insertAll_of_contains found_ps]
        · rintro _ ⟨⟩ r hr
          rcases List.mem_append.1 hr with hr | hr
          · exact closed found e r hr
          · rw [List.mem_singleton.1 hr]
            exact ⟨ps, hps, found_ps⟩
    · have longer : (PathSet.ofList (later ++ [p])).toList = (PathSet.ofList later).toList ++ [p] := by
        rw [PathSet.ofList, PathSet.insertAll_concat]
        exact PathSet.toList_insert there
      have closure_eq : closureOf T (PathSet.ofList (later ++ [p])).toList =
          (closureOf T (PathSet.ofList later).toList >>= fun found => (pathsOf T p).map found.insertAll) := by
        rw [longer, closureOf, foldlM_concat, ← closureOf]
      rw [closure_eq]
      rcases e : closureOf T (PathSet.ofList later).toList with f | found
      · exact ⟨rfl, fun _ none => by cases none⟩
      · rcases hps : pathsOf T p with f | ps
        · exact ⟨rfl, fun _ none => by cases none⟩
        · refine ⟨?_, ?_⟩
          · show Except.ok (ps.foldl Splicing.move (.after first found)) = Except.ok _
            rw [Splicing.foldl_move h]
          · rintro _ ⟨⟩ r hr
            rcases List.mem_append.1 hr with hr | hr
            · obtain ⟨rs, hrs, found_rs⟩ := closed found e r hr
              exact ⟨rs, hrs, fun y hy => PathSet.contains_insertAll.2 (.inl (found_rs y hy))⟩
            · rw [List.mem_singleton.1 hr]
              exact ⟨ps, hps, fun y hy => PathSet.contains_insertAll.2 (.inr ⟨y, hy, BEq.rfl⟩)⟩

/-! ### Both ways -/

private theorem closure_yields (hT : Repeats I trace T) (ps : List Path) :
    (closure trace ps).Yields I (closureOf T ps) := by
  unfold closure closureOf
  refine Action.Yields.foldlM (fun p _ found => ?_) PathSet.empty
  have traced := (hT.yields [p]).map fun fs => found.insertAll (fs.map (·.path))
  have e : (pathsOf T p).map found.insertAll = (T [p]).map fun fs => found.insertAll (fs.map (·.path)) := by
    unfold pathsOf
    cases T [p] <;> rfl
  rw [e]
  exact traced

private theorem spliced_yields (hT : Repeats I trace T) (entries : List Path) : (spliced trace entries).Yields I
    (T entries >>= fun fs =>
      (movedBy T (occurrences (fs.map (·.path))).1 (occurrences (fs.map (·.path))).2).map (fs.map (·.path), ·)) := by
  refine (hT.yields entries).bind fun fs _ => ?_
  refine Action.Yields.map (Action.Yields.foldlM (fun p _ s => ?_) _) _
  have traced := (hT.yields [p]).map fun fs => (fs.map (·.path)).foldl Splicing.move s
  have e : (pathsOf T p).map (fun ps => ps.foldl Splicing.move s) =
      (T [p]).map fun fs => (fs.map (·.path)).foldl Splicing.move s := by
    unfold pathsOf
    cases T [p] <;> rfl
  rw [e]
  exact traced

/-- The partition of a trace with the files that are shared. -/
def Partition.split (all : List Path) (option : CommonOption) (shared : PathSet) : Partition :=
  let common := if option.isEnabled then shared else .empty
  { all, shared, common, uncommon := (repeated all).1.filter (!common.contains ·) }

private theorem Partition.of_yields (hT : Repeats I trace T) (entries : List Path) (option : CommonOption) :
    (Partition.of trace entries option).Yields I (T entries >>= fun fs =>
      (closureOf T (repeated (fs.map (·.path))).2.toList).map (split (fs.map (·.path)) option)) :=
  (hT.yields entries).bind fun fs _ => (closure_yields hT _).map (split (fs.map (·.path)) option)

private theorem Partition.lists_split {all : List Path} {option : CommonOption} (h : option.isEnabled = true)
    (shared : PathSet) : (split all option shared).lists = (all, .after (occurrences all).1 shared) := by
  unfold split lists Splicing.after
  rw [if_pos h, PathSet.toList_filter, (repeated_eq_occurrences all).1]

/-- With a tracer that repeats itself, the list algorithm splits files as a partition does: it gives the same lists, or
fails in the same way. -/
theorem spliced_partition (hT : Repeats I trace T) (entries : List Path) {option : CommonOption}
    (h : option.isEnabled = true) {w w' : σ} (hw : I w) (hw' : I w') :
    (spliced trace entries w).1 = (Partition.of trace entries option w').1.map Partition.lists := by
  rw [(spliced_yields hT entries w hw).1, (Partition.of_yields hT entries option w' hw').1]
  rcases T entries with f | fs
  · rfl
  · obtain ⟨first_eq, later_eq⟩ := repeated_eq_occurrences (fs.map (·.path))
    have distinct : (occurrences (fs.map (·.path))).1.Pairwise fun p q => ¬ (p == q) = true :=
      first_eq ▸ (repeated (fs.map (·.path))).1.distinct
    show (movedBy T _ _).map _ = ((closureOf T _).map _).map _
    rw [(movedBy_eq hT distinct _).1, later_eq]
    rcases e : closureOf T (PathSet.ofList (occurrences (fs.map (·.path))).2).toList with f | found
    all_goals
      rw [e]
    · rfl
    · show Except.ok _ = Except.ok _
      rw [Partition.lists_split h]

/-! ### Graphs -/

namespace Graph

variable {p q : Path}

/-- The walks have seen the same, and list the same, however it is spelled. -/
structure Walk.Like (w v : Walk) : Prop where
  seen : ∀ r, w.seen.contains r = v.seen.contains r
  files : List.Forall₂ (fun f g => (f.path == g.path) = true) w.files v.files

private theorem Walk.Like.visit {g : Graph} {w v : Walk} (n : Nat) (h : w.Like v) (same : (p == q) = true) :
    (g.visit n w p).Like (g.visit n v q) := by
  induction n generalizing w v p q with
  | zero => exact h
  | succ n ih =>
    have fold (ds : List Path) {w v : Walk} (h : w.Like v) : (ds.foldl (g.visit n) w).Like (ds.foldl (g.visit n) v) := by
      induction ds generalizing w v with
      | nil => exact h
      | cons d ds step => exact step (ih h BEq.rfl)
    have needs : g.dependencies p = g.dependencies q := by
      rw [dependencies, dependencies, PathTable.get?, PathTable.get?, Path.beq_iff.1 same]
    have seen : w.seen.contains p = v.seen.contains q := (h.seen p).trans (PathSet.contains_congr same)
    rw [Graph.visit, Graph.visit, seen, needs]
    split
    · exact h
    · have entered : Walk.Like { w with seen := w.seen.insert p } { v with seen := v.seen.insert q } := by
        refine ⟨fun r => ?_, h.files⟩
        rw [Bool.eq_iff_iff, PathSet.contains_insert, PathSet.contains_insert, h.seen r, BEq.congr_left same]
      have below := fold (g.dependencies q) entered
      exact ⟨below.seen, List.rel_append below.files (.cons same .nil)⟩

theorem sameFiles_trace (g : Graph) (same : (p == q) = true) : SameFiles (g.trace [p]) (g.trace [q]) := by
  have single (r : Path) : g.trace [r] = (g.traceOne r).map fun fs => fs ++ [] := by
    unfold Graph.trace
    rw [List.mapM_cons, List.mapM_nil]
    cases g.traceOne r <;> rfl
  have failing : g.failing.any (· == p) = g.failing.any (· == q) := by
    congr 1
    funext r
    exact BEq.congr_right same
  have fixed : g.fixed.get? p = g.fixed.get? q := by
    rw [PathTable.get?, PathTable.get?, Path.beq_iff.1 same]
  have start : Walk.Like {} {} := ⟨fun _ => rfl, .nil⟩
  have walks := (start.visit (g := g) (g.rows.length + 1) same).files
  rw [single, single, traceOne, traceOne, failing, fixed]
  split
  · trivial
  · split
    · exact List.forall₂_same.2 fun _ _ => BEq.rfl
    · exact List.rel_append walks .nil

/-- A tracer that follows a graph repeats itself. -/
theorem repeats (g : Graph) (there : List Path) :
    Repeats (fun _ => True) (Collaborators.ofGraph g there).trace g.trace where
  yields _ _ _ := ⟨rfl, trivial⟩
  congr _ _ same := g.sameFiles_trace same

end Graph

/-- A tracer whose answers are given one by one. Its traces are not closed: the trace of `s` lists a file that no other
trace lists, that of `u` does not list `u`, and `b` lists `s` in another spelling. -/
def loose : Graph where
  fixed := [((⟨"a"⟩ : Path).components, [⟨"lib/s"⟩, ⟨"a"⟩]), ((⟨"b"⟩ : Path).components, [⟨"lib//s"⟩, ⟨"u"⟩, ⟨"b"⟩]),
    ((⟨"c"⟩ : Path).components, [⟨"u"⟩, ⟨"lib/s"⟩, ⟨"c"⟩]), ((⟨"lib/s"⟩ : Path).components, [⟨"t"⟩, ⟨"lib/s"⟩]),
    ((⟨"u"⟩ : Path).components, [⟨"b"⟩])]
  failing := [⟨"x"⟩]

/-- The file `u` comes back and yet stays unique, since its own trace does not list it, while `b` comes only once and is
common. -/
theorem spliced_partition_loose : CommonOption.enabled.isEnabled = true ∧
    (spliced (Collaborators.ofGraph loose []).trace [⟨"a"⟩, ⟨"b"⟩, ⟨"c"⟩] ()).1 =
      (Partition.of (Collaborators.ofGraph loose []).trace [⟨"a"⟩, ⟨"b"⟩, ⟨"c"⟩] .enabled ()).1.map Partition.lists ∧
    ∃ all s, (spliced (Collaborators.ofGraph loose []).trace [⟨"a"⟩, ⟨"b"⟩, ⟨"c"⟩] ()).1 = .ok (all, s) ∧
      s.common.map (·.text) = ["t", "lib/s", "b"] ∧ s.unique.map (·.text) = ["a", "u", "c"] := by
  refine ⟨rfl, spliced_partition (loose.repeats []) _ rfl trivial trivial, _, _, rfl, ?_, ?_⟩
  all_goals decide +kernel

end ScriptBundler
