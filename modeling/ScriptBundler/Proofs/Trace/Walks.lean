import ScriptBundler.Proofs.Trace.Again
import ScriptBundler.Proofs.Trace.Order

/-!
# Traces as walks of a graph

A tracer keeps open files and listed files apart, and a walk of a graph marks a file once, when it is entered. All the
same they list the same files in the same order: at each step of a visit, what is marked is what is open or listed
(`Marks`, `Visits.walks`).

If all files that are reached can be read and parsed, a new tracer lists what walks of the graph of its own list do, and
walks of any other graph of the same imports list the same paths, even if imports are there several times
(`trace_walks`).
-/

namespace ScriptBundler.ImportTracer

variable {t : ImportTracer} {d : Disk} {m m' : ImportMemory} {w w' : Walk} {p q : Path} {ps deps : List Path}
  {f : TracedFile} {files : List TracedFile} {found : List (List TracedFile)} {g : Graph} {v : Graph.Walk}

/-! ### Two sets and one -/

/-- What is open or listed is marked, and the same paths are listed. -/
def Marks (w : Walk) (v : Graph.Walk) : Prop :=
  v.files.map (·.path) = w.files.map (·.path) ∧ ∀ q, v.seen.contains q = true ↔ w.sees q = true

private theorem marks_empty : Marks {} {} := ⟨rfl, by simp [Walk.sees]⟩

private theorem Marks.enter (h : Marks w v) : Marks (w.enter p) { v with seen := v.seen.insert p } := by
  refine ⟨h.1, fun q => ?_⟩
  rw [PathSet.contains_insert, h.2, Walk.sees_enter]

/-- A file that is listed is no longer open, but it stays marked. -/
private theorem Marks.leave (h : Marks w v) (hp : w.sees p = true) (deps' : List Path) :
    Marks (w.leave p deps) { v with files := v.files ++ [⟨p, deps'⟩] } := by
  refine ⟨?_, fun q => ?_⟩
  · show (v.files ++ _).map _ = (w.files ++ _).map _
    rw [List.map_append, List.map_append, h.1]
    rfl
  · rw [Walk.sees_leave hp]
    exact h.2 q

/-- To visit the dependencies of a file is to visit those that the graph has for it. -/
def Matches (g : Graph) (f : TracedFile) : Prop :=
  ∀ n v, (g.dependencies f.path).foldl (g.visit n) v = f.dependencies.foldl (g.visit n) v

private theorem matches_of_eq (h : g.dependencies f.path = f.dependencies) : Matches g f := fun _ _ => by rw [h]

/-- It does not matter how often the graph has them. -/
private theorem matches_of_eraseDups (h : f.dependencies = (g.dependencies f.path).eraseDups) : Matches g f :=
  fun n v => by
  rw [h]
  exact Graph.foldl_visit_eraseDups n _ v

/-- A visit goes along with visits of a graph, if these may go deep enough. -/
theorem Visits.walks (h : t.Visits d ps w m w' m') (hv : Marks w v) (hg : ∀ f ∈ w'.files, Matches g f) :
    ∃ v' depth, Marks w' v' ∧ ∀ n, depth ≤ n → ps.foldl (g.visit n) v = v' := by
  induction h generalizing v with
  | none => exact ⟨v, 0, hv, fun _ _ => rfl⟩
  | again seen _ ih =>
    obtain ⟨v', depth, hv', visited⟩ := ih hv hg
    refine ⟨v', depth, hv', fun n hn => ?_⟩
    rw [List.foldl_cons, Graph.visit_of_seen n ((hv.2 _).2 seen), visited n hn]
  | listed unseen e inner k ih₁ ih₂ =>
    rename_i p ps deps w w₁ w' m m₁ m₂ m'
    obtain ⟨rest, l⟩ := k.exists_lists
    have files_eq : w'.files = w₁.files ++ [⟨p, deps⟩] ++ rest := l.files
    obtain ⟨⟨matches_below, matches_p⟩, -⟩ : ((∀ f ∈ w₁.files, Matches g f) ∧ Matches g ⟨p, deps⟩) ∧
        ∀ f ∈ rest, Matches g f := by
      simpa only [files_eq, List.forall_mem_append, List.forall_mem_singleton] using hg
    obtain ⟨v₁, depth₁, hv₁, visited₁⟩ := ih₁ hv.enter matches_below
    obtain ⟨v', depth₂, hv', visited₂⟩ := ih₂ (hv₁.leave inner.sees_entered (g.dependencies p)) hg
    -- below `p` the graph may go one step less deep
    refine ⟨v', max (depth₁ + 1) depth₂, hv', fun n hn => ?_⟩
    obtain ⟨n, rfl⟩ : ∃ k, n = k + 1 := ⟨n - 1, by omega⟩
    have below : (g.dependencies p).foldl (g.visit n) { v with seen := v.seen.insert p } = v₁ :=
      (matches_p n _).trans (visited₁ n (by omega))
    have visited : g.visit (n + 1) v p = { v₁ with files := v₁.files ++ [⟨p, g.dependencies p⟩] } := by
      rw [Graph.visit, if_neg (mt (hv.2 p).1 unseen)]
      simp only [below]
    rw [List.foldl_cons, visited, visited₂ (n + 1) (by omega)]

/-- A trace lists the paths that a walk does. -/
private theorem Visits.map_path_walk (h : t.Visits d [p] {} m w m') (hg : ∀ f ∈ w.files, Matches g f) :
    (g.walk p).map (·.path) = w.files.map (·.path) := by
  obtain ⟨v', depth, hv', visited⟩ := h.walks marks_empty hg
  have deep := visited (max depth (g.rows.length + 1)) (Nat.le_max_left _ _)
  rw [List.foldl_cons, List.foldl_nil] at deep
  rw [Graph.walk_eq (Nat.lt_of_lt_of_le (Nat.lt_succ_self _) (Nat.le_max_right depth _)), deep, hv'.1]

/-- So do traces one after the other. -/
private theorem map_path_walks (h : (ps.mapM (t.traceOne d)).Gives m found m') (hg : ∀ f ∈ found.flatten, Matches g f) :
    (ps.flatMap g.walk).map (·.path) = found.flatten.map (·.path) := by
  have each := Action.gives_mapM h
  clear h
  induction each with
  | nil => rfl
  | cons traced _ ih =>
    obtain ⟨m₁, m₂, traced⟩ := traced
    obtain ⟨w, visits, rfl⟩ := gives_traceOne.1 traced
    rw [List.flatten_cons, List.forall_mem_append] at hg
    rw [List.flatMap_cons, List.flatten_cons, List.map_append, List.map_append, visits.map_path_walk hg.1, ih hg.2]

/-! ### The graph of what is listed -/

/-- Files with the dependencies of a graph are told from their paths. -/
private theorem files_eq_of_map_path {files' : List TracedFile} (h : files.map (·.path) = files'.map (·.path))
    (hf : ∀ f ∈ files, g.dependencies f.path = f.dependencies)
    (hf' : ∀ f ∈ files', g.dependencies f.path = f.dependencies) : files = files' := by
  have from_paths : ∀ l : List TracedFile, (∀ f ∈ l, g.dependencies f.path = f.dependencies) →
      (l.map (·.path)).map (fun p => ⟨p, g.dependencies p⟩) = l := by
    intro l hl
    rw [List.map_map]
    exact (List.map_congr_left fun f hf => by simp [hl f hf]).trans (List.map_id l)
  rw [← from_paths files hf, h, from_paths files' hf']

private theorem remembers_of_mapM (h : (ps.mapM (t.traceOne d)).Gives m found m') :
    ∀ f ∈ found.flatten, t.Remembers m' f.path f.dependencies := by
  obtain ⟨-, each⟩ := Action.gives_mapM_back (J := (·.Within m'))
    (fun p _ _ _ => (t.traceOne_follows m' d d p).before) h (.refl m')
  intro f hf
  obtain ⟨listed, hlisted, hf⟩ := List.mem_flatten.1 hf
  obtain ⟨p, -, m₁, m₂, traced, within⟩ := Action.exists_of_forall₂ each.flip hlisted
  obtain ⟨w, visits, rfl⟩ := gives_traceOne.1 traced
  obtain ⟨new, l⟩ := visits.exists_lists
  obtain rfl : w.files = new := l.files
  exact (l.remembers f hf).mono within

/-- A trace of several paths describes a graph, and it is what walks of that graph list. -/
private theorem trace_graphOf (h : (t.trace d ps).Gives m files m') : (graphOf files).trace ps = .ok files := by
  obtain ⟨found, m₁, traced, last⟩ := Action.gives_bind.1 h
  obtain ⟨rfl, rfl⟩ := Action.gives_pure.1 last
  have hg := graphOf_of_remembers (remembers_of_mapM traced) d
  have paths_eq := map_path_walks traced fun f hf => matches_of_eq (hg f hf)
  rw [Graph.trace_eq_ok rfl rfl, files_eq_of_map_path paths_eq (fun f hf => ?_) hg]
  obtain ⟨p, -, hf⟩ := List.mem_flatMap.1 hf
  exact ((Graph.walk_adds _ p).dependencies f hf).symm

/-! ### Another graph of the same imports -/

section Answers

variable {P : Path → Prop} {answer : Path → List Path}

/-- Files with the property `P` are answered for in one way. -/
def Answers (t : ImportTracer) (d : Disk) (P : Path → Prop) (answer : Path → List Path) (m : ImportMemory) : Prop :=
  ∀ p, P p → t.needs d m p = .ok (answer p)

variable (closed : ∀ p, P p → ∀ x ∈ answer p, P x) (spelled : ∀ p q, (p == q) = true → answer p = answer q)

include spelled in
private theorem Answers.learns (h : t.Answers d P answer m) (hp : P p) (e : (t.dependencies d p).Gives m deps m') :
    deps = answer p ∧ t.Answers d P answer m' := by
  obtain ⟨needs_eq, learns, remembers⟩ := learns_of_gives e
  obtain rfl : answer p = deps := by simpa [needs_eq] using (h p hp).symm
  refine ⟨rfl, fun q hq => ?_⟩
  by_cases same : (p == q) = true
  · rw [(remembers.congr same).needs d, spelled p q same]
  · rw [learns.needs same, h q hq]

include closed spelled in
/-- Files are listed with the answers that are given for them. -/
private theorem Visits.answers (h : t.Visits d ps w m w' m') (hps : ∀ p ∈ ps, P p) (hm : t.Answers d P answer m)
    (hw : ∀ f ∈ w.files, f.dependencies = answer f.path) :
    t.Answers d P answer m' ∧ ∀ f ∈ w'.files, f.dependencies = answer f.path := by
  induction h with
  | none => exact ⟨hm, hw⟩
  | again _ _ ih => exact ih (fun x hx => hps x (List.mem_cons_of_mem _ hx)) hm hw
  | listed _ e _ _ ih₁ ih₂ =>
    rw [List.forall_mem_cons] at hps
    obtain ⟨rfl, hm₁⟩ := hm.learns spelled hps.1 e
    obtain ⟨hm₂, hw₁⟩ := ih₁ (closed _ hps.1) hm₁ hw
    refine ih₂ hps.2 hm₂ ?_
    rw [Walk.leave, List.forall_mem_append, List.forall_mem_singleton]
    exact ⟨hw₁, rfl⟩

include closed spelled in
private theorem answers_of_mapM (h : (ps.mapM (t.traceOne d)).Gives m found m') (hps : ∀ p ∈ ps, P p)
    (hm : t.Answers d P answer m) : ∀ f ∈ found.flatten, f.dependencies = answer f.path := by
  have each := Action.gives_mapM_forth (I := t.Answers d P answer)
    (R := fun _ files => ∀ f ∈ files, f.dependencies = answer f.path) (fun p hp m files m' hm traced => ?_) h hm
  · intro f hf
    obtain ⟨files, hfiles, hf⟩ := List.mem_flatten.1 hf
    obtain ⟨p, -, told⟩ := Action.exists_of_forall₂ each.2.flip hfiles
    exact told f hf
  · obtain ⟨w, visits, rfl⟩ := gives_traceOne.1 traced
    exact visits.answers closed spelled (List.forall_mem_singleton.2 (hps p hp)) hm nofun

end Answers

/-- If all files that are reached can be read and parsed, a new tracer lists what walks of the graph of its own list do.
Walks of any graph with the same imports list the same paths, also if imports are there several times. -/
theorem trace_walks (h : ∀ p, t.Reached d ps p → ∀ f, ¬ Fault d p f) : ∃ files m, (t.trace d ps).Gives {} files m ∧
    (graphOf files).trace ps = .ok files ∧ ∀ rows : PathTable,
      (∀ p, t.Reached d ps p → t.asks d p = .ok (({ rows } : Graph).dependencies p).eraseDups) →
        ∃ listed, ({ rows } : Graph).trace ps = .ok listed ∧ listed.map (·.path) = files.map (·.path) := by
  have succeeds : ∃ files m, (t.trace d ps).Gives {} files m := by
    obtain ⟨order, k⟩ := t.exists_preorder d ps
    rcases e : t.trace d ps {} with ⟨f | files, m⟩
    · -- a call that fails does so with a fault of a file that is reached
      have failed : (t.trace d ps {}).1 = .error f := by rw [e]
      obtain ⟨p, hp, fault⟩ := List.exists_of_findSome?_eq_some ((trace_preorder k).1 failed)
      exact absurd (fault?_eq_some.1 fault) (h p (k.reached (fun _ => .given) p hp) f)
    · exact ⟨files, m, e⟩
  obtain ⟨files, m, traced⟩ := succeeds
  refine ⟨files, m, traced, trace_graphOf traced, fun rows asked => ⟨_, Graph.trace_eq_ok rfl rfl ps, ?_⟩⟩
  obtain ⟨found, m₁, each, last⟩ := Action.gives_bind.1 traced
  obtain ⟨rfl, rfl⟩ := Action.gives_pure.1 last
  have told : t.Answers d (t.Reached d ps) (fun p => (({ rows } : Graph).dependencies p).eraseDups) {} := fun p hp => by
    rw [← asks_eq, asked p hp]
  have listed := answers_of_mapM (fun p hp x hx => .asked hp (asked p hp) hx)
    (fun p q same => by rw [Graph.dependencies_congr same]) each (fun p => .given) told
  exact map_path_walks each fun f hf => matches_of_eraseDups (listed f hf)

/-- A script that asks for itself and twice for another one, which asks for it in turn. -/
def looped : Disk := .ofScripts [("a.js", "import './a'; import './b'; import './b.js'; import './c'"),
  ("b.js", "import './a'; import './c'"), ("c.js", "")]

/-- Their imports as they are written. -/
def loops : PathTable := [([.root, .normal "a.js"], [⟨"/a.js"⟩, ⟨"/b.js"⟩, ⟨"/b.js"⟩, ⟨"/c.js"⟩]),
  ([.root, .normal "b.js"], [⟨"/a.js"⟩, ⟨"/c.js"⟩])]

/-- The scripts are listed in one order. -/
theorem trace_walks_looped : (∀ p, unaliased.Reached looped [⟨"/a.js"⟩, ⟨"/c.js"⟩] p → ∀ f, ¬ Fault looped p f) ∧
    ∃ files m listed, (unaliased.trace looped [⟨"/a.js"⟩, ⟨"/c.js"⟩]).Gives {} files m ∧
      ({ rows := loops } : Graph).trace [⟨"/a.js"⟩, ⟨"/c.js"⟩] = .ok listed ∧
      listed.map (·.path) = files.map (·.path) ∧
      files.map (·.path.text) = ["/c.js", "/b.js", "/a.js", "/c.js"] := by
  have reached : ∀ p, unaliased.Reached looped [⟨"/a.js"⟩, ⟨"/c.js"⟩] p → p.text ∈ ["/a.js", "/b.js", "/c.js"] :=
    fun p k => k.mem_closed (by decide) (by decide +kernel)
  have asked : ∀ name ∈ ["/a.js", "/b.js", "/c.js"], ((unaliased.asks looped ⟨name⟩).map (·.map (·.text))).toOption =
      some ((({ rows := loops } : Graph).dependencies ⟨name⟩).eraseDups.map (·.text)) := by decide +kernel
  have asks_eq : ∀ p, unaliased.Reached looped [⟨"/a.js"⟩, ⟨"/c.js"⟩] p →
      unaliased.asks looped p = .ok (({ rows := loops } : Graph).dependencies p).eraseDups := fun p k => by
    have same := asked p.text (reached p k)
    rcases e : unaliased.asks looped p with f | deps
    · simp [e, Except.map, Except.toOption] at same
    · have texts_eq : deps.map (·.text) = (({ rows := loops } : Graph).dependencies p).eraseDups.map (·.text) := by
        simpa [e, Except.map, Except.toOption] using same
      rw [List.map_injective_iff.2 (fun x y => congrArg Path.mk) texts_eq]
  have sound : ∀ p, unaliased.Reached looped [⟨"/a.js"⟩, ⟨"/c.js"⟩] p → ∀ f, ¬ Fault looped p f := fun p k f fault => by
    have failed := asks_eq_error_iff (t := unaliased).2 fault
    rw [asks_eq p k] at failed
    cases failed
  obtain ⟨files, m, traced, -, same⟩ := trace_walks sound
  obtain ⟨listed, walked, paths_eq⟩ := same loops asks_eq
  have texts : (unaliased.trace looped [⟨"/a.js"⟩, ⟨"/c.js"⟩] {}).1.toOption.map (·.map (·.path.text)) =
      some ["/c.js", "/b.js", "/a.js", "/c.js"] := by decide +kernel
  refine ⟨sound, files, m, listed, traced, walked, paths_eq, ?_⟩
  rw [show unaliased.trace looped [⟨"/a.js"⟩, ⟨"/c.js"⟩] {} = (.ok files, m) from traced] at texts
  exact Option.some_inj.1 texts

end ScriptBundler.ImportTracer
