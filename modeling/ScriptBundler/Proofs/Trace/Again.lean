import ScriptBundler.Proofs.Trace.Listing

/-!
# Traces made again

A tracer that is told of nothing gives the same trace again, whatever has become of the disk, and another tracer gives
it too if it answers for each file on the way as the first one remembers (`Visits.transfer`, `trace_follows`). What is
remembered is traced from any of its files, in the order of a walk of the graph that it describes (`Recalls.traceOne`).
-/

namespace ScriptBundler.ImportTracer

variable {t : ImportTracer} {d : Disk} {m m' : ImportMemory} {w w' : Walk} {p : Path} {ps : List Path}
  {files : List TracedFile}

/-- A visit is made on another disk or from another memory if all files that are listed are answered for as before. -/
theorem Visits.transfer (h : t.Visits d ps w m w' m') (d' : Disk) (s : ImportMemory)
    (hs : ∀ new, w'.files = w.files ++ new → ∀ f ∈ new, t.needs d' s f.path = .ok f.dependencies) :
    ∃ s', t.Visits d' ps w s w' s' := by
  induction h generalizing s with
  | none => exact ⟨s, .none⟩
  | again seen _ ih =>
    obtain ⟨s', k⟩ := ih s hs
    exact ⟨s', .again seen k⟩
  | listed unseen e inner k ih₁ ih₂ =>
    rename_i p _ deps w w₁ w' m m₁ m₂ m'
    obtain ⟨new₁, l₁⟩ := inner.exists_lists
    obtain ⟨new₂, l₂⟩ := k.exists_lists
    have hs := hs _ (l₁.files_listed l₂)
    rw [List.forall_mem_append, List.forall_mem_cons] at hs
    obtain ⟨hs₁, hp, hs₂⟩ := hs
    obtain ⟨s₁, eq, learns, -⟩ := t.dependencies_eq d' p s
    rw [hp] at eq
    -- the files below do not hear of `p`, and the files beside it do not hear of either
    obtain ⟨s₂, inner'⟩ := ih₁ s₁ fun new hnew f hf => by
      obtain rfl : new = new₁ := List.append_cancel_left (hnew.symm.trans l₁.files)
      rw [learns.needs fun hpf => l₁.fresh f hf (Walk.sees_enter.2 (.inr hpf)), hs₁ f hf]
    obtain ⟨s', k'⟩ := ih₂ s₂ fun new hnew f hf => by
      obtain rfl : new = new₂ := List.append_cancel_left (hnew.symm.trans l₂.files)
      have hp : w₁.sees p = true := inner.sees_entered
      have fresh : ¬ w₁.sees f.path = true := fun hw => l₂.fresh f hf ((Walk.sees_leave hp).2 hw)
      rw [inner'.needs_eq (.inr fresh), learns.needs fun hpf => fresh (Walk.sees_congr hpf ▸ hp), hs₂ f hf]
    exact ⟨s', .listed unseen eq inner' k'⟩

theorem gives_traceOne : (t.traceOne d p).Gives m files m' ↔ ∃ w, t.Visits d [p] {} m w m' ∧ w.files = files := by
  obtain ⟨⟨f | w, m₁⟩, ends, e⟩ := t.traceOne_ends d p m
  · refine iff_of_false (fun h => ?_) fun ⟨w, h, _⟩ => h.not_fails ends
    exact Action.Gives.not_refuses h e
  · constructor
    · intro h
      obtain ⟨rfl, rfl⟩ := Action.Gives.unique h e
      exact ⟨w, ends, rfl⟩
    · rintro ⟨w', h, rfl⟩
      obtain ⟨rfl, rfl⟩ := h.unique ends
      exact e

/-- Files are answered for as a memory tells, as far as it does. -/
def Heeds (t : ImportTracer) (M : ImportMemory) (d : Disk) (m : ImportMemory) : Prop :=
  ∀ p deps, t.Remembers M p deps → t.needs d m p = .ok deps

theorem traceOne_follows (t : ImportTracer) (M : ImportMemory) (d d' : Disk) (p : Path) :
    Action.Follows (·.Within M) (t.Heeds M d') (t.traceOne d p) (t.traceOne d' p) where
  before h hM := by
    obtain ⟨w, h, -⟩ := gives_traceOne.1 h
    exact h.within.trans hM
  again h hM hs := by
    rename_i m files m' s
    obtain ⟨w, visits, rfl⟩ := gives_traceOne.1 h
    obtain ⟨new, l⟩ := visits.exists_lists
    have remembered : ∀ f ∈ new, t.Remembers M f.path f.dependencies := fun f hf => (l.remembers f hf).mono hM
    obtain ⟨s', k⟩ := visits.transfer d' s fun new' hnew f hf => by
      obtain rfl : new' = new := List.append_cancel_left (hnew.symm.trans l.files)
      exact hs _ _ (remembered f hf)
    refine ⟨s', gives_traceOne.2 ⟨w, k, rfl⟩, fun q deps hq => ?_⟩
    obtain ⟨new', l'⟩ := k.exists_lists
    obtain rfl : new' = new := List.append_cancel_left (l'.files.symm.trans l.files)
    by_cases seen : w.sees q = true
    · -- a file that has been listed is remembered, and as it was remembered before
      obtain ⟨f, hf, e⟩ := ((l'.seen q).1 seen).resolve_left (by simp [Walk.sees])
      have same : deps = f.dependencies := by
        have h₁ := hq.needs d'
        rw [((remembered f hf).congr e).needs d'] at h₁
        cases h₁
        rfl
      rw [same]
      exact ((l'.remembers f hf).congr e).needs d'
    · rw [k.needs_eq (.inr seen), hs q deps hq]

/-- A trace is given again by whoever heeds what is remembered when it ends. -/
theorem trace_follows (t : ImportTracer) (M : ImportMemory) (d d' : Disk) (ps : List Path) :
    Action.Follows (·.Within M) (t.Heeds M d') (t.trace d ps) (t.trace d' ps) :=
  (Action.Follows.mapM (t.traceOne_follows M d d') ps).bind fun found => .pure found.flatten

/-! ### Traces from memory alone -/

section Recall

variable {g : Graph} {P : Path → Prop} {v : Graph.Walk}

/-- All files with the property `P` are remembered with the dependencies of the graph, which have the property too. -/
def Recalls (t : ImportTracer) (g : Graph) (P : Path → Prop) (m : ImportMemory) : Prop :=
  ∀ p, P p → t.Remembers m p (g.dependencies p) ∧ ∀ x ∈ g.dependencies p, P x

/-- A tracer that goes from `w` to `w'` learns nothing, and the walk of a graph goes along from `v` to `v'`. -/
structure Goes (x : Action ImportMemory Walk) (m : ImportMemory) (w : Walk) (v' : Graph.Walk) (w' : Walk) : Prop where
  gives : x.Gives m w' m
  views : Views w' v'
  mono : ∀ q, w.sees q = true → w'.sees q = true

/-- Visits one after the other go along with those of a graph, if each of them does. -/
private theorem exists_goes_foldlM {n : Nat} (ds : List Path) (hv : Views w v)
    (visit_goes : ∀ x ∈ ds, ∀ {w v}, Views w v → ∃ w', Goes (t.visit d n w x) m w (g.visit n v x) w') :
    ∃ w', Goes (ds.foldlM (t.visit d n) w) m w (ds.foldl (g.visit n) v) w' := by
  induction ds generalizing w v with
  | nil => exact ⟨w, Action.gives_pure.2 ⟨rfl, rfl⟩, hv, fun _ => id⟩
  | cons x ds ih =>
    rw [List.forall_mem_cons] at visit_goes
    obtain ⟨w₁, h₁⟩ := visit_goes.1 hv
    obtain ⟨w', h⟩ := ih h₁.views visit_goes.2
    rw [List.foldlM_cons, List.foldl_cons]
    exact ⟨w', Action.gives_bind.2 ⟨w₁, m, h₁.gives, h.gives⟩, h.views, fun q hq => h.mono q (h₁.mono q hq)⟩

private theorem Recalls.exists_goes_visit (h : t.Recalls g P m) (d : Disk) (n : Nat) (hv : Views w v) (hp : P p) :
    ∃ w', Goes (t.visit d n w p) m w (g.visit n v p) w' := by
  induction n generalizing w v p with
  | zero => exact ⟨w, Action.gives_pure.2 ⟨rfl, rfl⟩, hv, fun _ => id⟩
  | succ n ih =>
    rw [visit_succ, Graph.visit]
    by_cases seen : w.sees p = true
    · rw [if_pos seen, if_pos ((hv.2 p).2 seen)]
      exact ⟨w, Action.gives_pure.2 ⟨rfl, rfl⟩, hv, fun _ => id⟩
    · rw [if_neg seen, if_neg (mt (hv.2 p).1 seen)]
      obtain ⟨remembered, hdeps⟩ := h p hp
      obtain ⟨w₁, below⟩ := exists_goes_foldlM (d := d) (t := t) (m := m) (g.dependencies p) (views_enter (p := p) hv)
        fun x hx _ _ hv => ih hv (hdeps x hx)
      have entered : w₁.sees p = true := below.mono p (Walk.sees_enter.2 (.inr BEq.rfl))
      refine ⟨w₁.leave p (g.dependencies p), ?_, views_leave below.views entered, fun q hq => ?_⟩
      · refine Action.gives_bind.2 ⟨_, m, remembered.gives d, Action.gives_bind.2 ⟨w₁, m, below.gives, ?_⟩⟩
        exact Action.gives_pure.2 ⟨rfl, rfl⟩
      · exact (Walk.sees_leave entered).2 (below.mono q (Walk.sees_enter.2 (.inl hq)))

/-- What is remembered is traced without the disk, in the order of a walk. -/
theorem Recalls.traceOne (h : t.Recalls g P m) (d : Disk) (hp : P p) : (t.traceOne d p).Gives m (g.walk p) m := by
  let depth := d.nodes.length + m.resolutions.length + 2
  let n := max depth (g.rows.length + 1)
  obtain ⟨w, goes⟩ := h.exists_goes_visit d n (w := {}) (v := {}) ⟨rfl, by simp [Walk.sees]⟩ hp
  -- both walks are allowed to go as deep as there is something to find
  have e : t.visit d depth {} p m = t.visit d n {} p m :=
    (visit_ends (Nat.le_refl _) p).unique (visit_ends (Nat.le_max_left _ _) p)
  have files_eq : g.walk p = w.files := by
    rw [Graph.walk_eq (Nat.lt_of_lt_of_le (Nat.lt_succ_self _) (Nat.le_max_right depth _)), goes.views.1]
  have gives : t.visit d n {} p m = ((.ok w, m) : Attempted Walk × ImportMemory) := goes.gives
  show t.traceOne d p m = ((.ok (g.walk p), m) : Attempted (List TracedFile) × ImportMemory)
  rw [traceOne_apply, show t.visit d _ {} p m = _ from e, gives, files_eq]
  rfl

end Recall

end ScriptBundler.ImportTracer
