import ScriptBundler.Proofs.Graph.Walk
import ScriptBundler.Proofs.Trace.Memory

/-!
# Visits

`Visits` and `Fails` say what a visit of several files does, step by step and without a bound on the depth: files that
have been seen are passed over, and all others are entered, and left when the files they ask for have been visited.

* there is one way to end (`Visits.unique`, `Visits.not_fails`, `Fails.unique`);
* no file is asked for twice, so that each file that is listed (`Lists`) is answered for as it was to begin with;
* entering a file uses up one of the files there are (`unseen_enter_lt`), so a visit whose depth is bounded by their
  number ends as one without a bound (`foldlM_ends`, `visit_ends`, `traceOne_ends`).
-/

namespace ScriptBundler.ImportTracer

namespace Walk

/-- Whether a file is listed or open. -/
def sees (w : Walk) (p : Path) : Bool := w.done.any (· == p) || w.opened.any (· == p)

/-- The walk when a file has been opened. -/
def enter (w : Walk) (p : Path) : Walk := { w with opened := p :: w.opened }

/-- The walk when a file has been listed. -/
def leave (w : Walk) (p : Path) (deps : List Path) : Walk :=
  ⟨w.opened.filter (!· == p), p :: w.done, w.files ++ [⟨p, deps⟩]⟩

end Walk

variable {t : ImportTracer} {d : Disk} {m m₁ m₂ m' : ImportMemory} {w w₁ w₂ w' : Walk} {p q : Path}
  {ps deps : List Path} {f : Failure}

/-- Files are visited one after the other. -/
inductive Visits (t : ImportTracer) (d : Disk) : List Path → Walk → ImportMemory → Walk → ImportMemory → Prop where
  | none {w : Walk} {m : ImportMemory} : Visits t d [] w m w m
  | again {p : Path} {ps : List Path} {w w' : Walk} {m m' : ImportMemory} (h : w.sees p = true)
    (k : Visits t d ps w m w' m') : Visits t d (p :: ps) w m w' m'
  | listed {p : Path} {ps deps : List Path} {w w₁ w' : Walk} {m m₁ m₂ m' : ImportMemory} (h : ¬ w.sees p = true)
    (e : (t.dependencies d p).Gives m deps m₁) (inner : Visits t d deps (w.enter p) m₁ w₁ m₂)
    (k : Visits t d ps (w₁.leave p deps) m₂ w' m') : Visits t d (p :: ps) w m w' m'

/-- Files are visited one after the other, up to one that asks for files in vain. -/
inductive Fails (t : ImportTracer) (d : Disk) : List Path → Walk → ImportMemory → Failure → ImportMemory → Prop where
  | again {p : Path} {ps : List Path} {w : Walk} {m m' : ImportMemory} {f : Failure} (h : w.sees p = true)
    (k : Fails t d ps w m f m') : Fails t d (p :: ps) w m f m'
  | listed {p : Path} {ps deps : List Path} {w w₁ : Walk} {m m₁ m₂ m' : ImportMemory} {f : Failure}
    (h : ¬ w.sees p = true) (e : (t.dependencies d p).Gives m deps m₁) (inner : Visits t d deps (w.enter p) m₁ w₁ m₂)
    (k : Fails t d ps (w₁.leave p deps) m₂ f m') : Fails t d (p :: ps) w m f m'
  | entered {p : Path} {ps deps : List Path} {w : Walk} {m m₁ m' : ImportMemory} {f : Failure} (h : ¬ w.sees p = true)
    (e : (t.dependencies d p).Gives m deps m₁) (inner : Fails t d deps (w.enter p) m₁ f m') :
    Fails t d (p :: ps) w m f m'
  | refused {p : Path} {ps : List Path} {w : Walk} {m m' : ImportMemory} {f : Failure} (h : ¬ w.sees p = true)
    (e : (t.dependencies d p).Refuses m f m') : Fails t d (p :: ps) w m f m'

/-- How a visit of several files ends. -/
def Ends (t : ImportTracer) (d : Disk) (ps : List Path) (w : Walk) (m : ImportMemory) :
    Attempted Walk × ImportMemory → Prop
  | (.ok w', m') => t.Visits d ps w m w' m'
  | (.error f, m') => t.Fails d ps w m f m'

/-! ### One way to end -/

theorem Visits.unique (h : t.Visits d ps w m w₁ m₁) (k : t.Visits d ps w m w₂ m₂) : w₁ = w₂ ∧ m₁ = m₂ := by
  induction h generalizing w₂ m₂ with
  | none =>
    cases k
    exact ⟨rfl, rfl⟩
  | again seen _ ih =>
    cases k with
    | again _ k => exact ih k
    | listed unseen => exact absurd seen unseen
  | listed unseen e _ _ ih₁ ih₂ =>
    cases k with
    | again seen => exact absurd seen unseen
    | listed _ e' inner k =>
      obtain ⟨rfl, rfl⟩ := e.unique e'
      obtain ⟨rfl, rfl⟩ := ih₁ inner
      exact ih₂ k

theorem Visits.not_fails (h : t.Visits d ps w m w₁ m₁) : ¬ t.Fails d ps w m f m₂ := by
  intro k
  induction h generalizing f m₂ with
  | none => cases k
  | again seen _ ih =>
    cases k with
    | again _ k => exact ih k
    | listed unseen => exact unseen seen
    | entered unseen => exact unseen seen
    | refused unseen => exact unseen seen
  | listed unseen e inner _ ih₁ ih₂ =>
    cases k with
    | again seen => exact unseen seen
    | listed _ e' inner' k =>
      obtain ⟨rfl, rfl⟩ := e.unique e'
      obtain ⟨rfl, rfl⟩ := inner.unique inner'
      exact ih₂ k
    | entered _ e' k =>
      obtain ⟨rfl, rfl⟩ := e.unique e'
      exact ih₁ k
    | refused _ e' => exact e.not_refuses e'

theorem Fails.unique {f' : Failure} (h : t.Fails d ps w m f m₁) (k : t.Fails d ps w m f' m₂) : f = f' ∧ m₁ = m₂ := by
  induction h generalizing f' m₂ with
  | again seen _ ih =>
    cases k with
    | again _ k => exact ih k
    | listed unseen => exact absurd seen unseen
    | entered unseen => exact absurd seen unseen
    | refused unseen => exact absurd seen unseen
  | listed unseen e inner _ ih =>
    cases k with
    | again seen => exact absurd seen unseen
    | listed _ e' inner' k =>
      obtain ⟨rfl, rfl⟩ := e.unique e'
      obtain ⟨rfl, rfl⟩ := inner.unique inner'
      exact ih k
    | entered _ e' k =>
      obtain ⟨rfl, rfl⟩ := e.unique e'
      exact absurd k inner.not_fails
    | refused _ e' => exact absurd e' e.not_refuses
  | entered unseen e inner ih =>
    cases k with
    | again seen => exact absurd seen unseen
    | listed _ e' inner' =>
      obtain ⟨rfl, rfl⟩ := e.unique e'
      exact absurd inner inner'.not_fails
    | entered _ e' k =>
      obtain ⟨rfl, rfl⟩ := e.unique e'
      exact ih k
    | refused _ e' => exact absurd e' e.not_refuses
  | refused unseen e =>
    cases k with
    | again seen => exact absurd seen unseen
    | listed _ e' => exact absurd e e'.not_refuses
    | entered _ e' => exact absurd e e'.not_refuses
    | refused _ e' => exact e.unique e'

theorem Ends.unique {r r' : Attempted Walk × ImportMemory} (h : t.Ends d ps w m r) (k : t.Ends d ps w m r') : r = r' := by
  obtain ⟨f | w₁, m₁⟩ := r <;> obtain ⟨f' | w₂, m₂⟩ := r'
  · obtain ⟨rfl, rfl⟩ := Fails.unique h k
    rfl
  · exact absurd h (Visits.not_fails k)
  · exact absurd k (Visits.not_fails h)
  · obtain ⟨rfl, rfl⟩ := Visits.unique h k
    rfl

/-! ### What visits leave alone -/

theorem learns_of_gives (e : (t.dependencies d p).Gives m deps m') :
    t.needs d m p = .ok deps ∧ t.Learns d p m m' ∧ t.Remembers m' p deps := by
  obtain ⟨m₁, eq, learns, remembers⟩ := t.dependencies_eq d p m
  have h : @Eq (Attempted (List Path) × ImportMemory) (t.needs d m p, m₁) (.ok deps, m') := eq.symm.trans e
  obtain ⟨needs_eq, rfl⟩ := Prod.mk.inj h
  exact ⟨needs_eq, learns, remembers deps needs_eq⟩

namespace Walk

theorem sees_congr (h : (p == q) = true) : w.sees p = w.sees q := by
  unfold sees
  simp only [BEq.congr_right h]

theorem sees_enter : (w.enter p).sees q = true ↔ w.sees q = true ∨ (p == q) = true := by
  simp only [sees, enter, List.any_cons, Bool.or_eq_true]
  rw [← or_assoc, or_right_comm]

theorem sees_leave (h : w.sees p = true) : (w.leave p deps).sees q = true ↔ w.sees q = true := by
  have e : (w.leave p deps).sees q = true ↔
      ((p == q) = true ∨ w.done.any (· == q) = true) ∨ (w.opened.filter (!· == p)).any (· == q) = true := by
    simp only [sees, leave, List.any_cons, Bool.or_eq_true]
  rw [e]
  constructor
  · rintro ((hpq | hq) | hq)
    · rwa [← sees_congr hpq]
    · simp [sees, hq]
    · obtain ⟨x, hx, hxq⟩ := List.any_eq_true.1 hq
      have ho : w.opened.any (· == q) = true := List.any_eq_true.2 ⟨x, (List.mem_filter.1 hx).1, hxq⟩
      simp [sees, ho]
  · intro hq
    rcases Bool.or_eq_true_iff.1 hq with hq | hq
    · exact .inl (.inr hq)
    · -- what is no longer open is the file that has been listed
      obtain ⟨x, hx, hxq⟩ := List.any_eq_true.1 hq
      by_cases hxp : (x == p) = true
      · exact .inl (.inl (BEq.trans (BEq.symm hxp) hxq))
      · exact .inr (List.any_eq_true.2 ⟨x, List.mem_filter.2 ⟨hx, by simp [hxp]⟩, hxq⟩)

end Walk

namespace Visits

theorem within (h : t.Visits d ps w m w' m') : m.Within m' := by
  induction h with
  | none => exact .refl _
  | again _ _ ih => exact ih
  | listed _ e _ _ ih₁ ih₂ => exact (learns_of_gives e).2.1.within.trans (ih₁.trans ih₂)

private theorem found (h : t.Visits d ps w m w' m') (hq : q ∈ m'.found) : q ∈ m.found ∨ q ∈ d.paths := by
  induction h with
  | none => exact .inl hq
  | again _ _ ih => exact ih hq
  | listed _ e _ _ ih₁ ih₂ =>
    rcases ih₂ hq with hq | hq
    · exact (ih₁ hq).elim ((learns_of_gives e).2.1.found q) .inr
    · exact .inr hq

private theorem sees_mono (h : t.Visits d ps w m w' m') (hq : w.sees q = true) : w'.sees q = true := by
  induction h generalizing q with
  | none => exact hq
  | again _ _ ih => exact ih hq
  | listed _ _ _ _ ih₁ ih₂ =>
    have hp := ih₁ (Walk.sees_enter.2 (.inr BEq.rfl))
    exact ih₂ ((Walk.sees_leave hp).2 (ih₁ (Walk.sees_enter.2 (.inl hq))))

theorem sees_entered (inner : t.Visits d ps (w.enter p) m w₁ m₁) : w₁.sees p = true :=
  inner.sees_mono (Walk.sees_enter.2 (.inr BEq.rfl))

/-- A file that is not visited on the way is answered as before. -/
theorem needs_eq (h : t.Visits d ps w m w' m') (hq : w.sees q = true ∨ ¬ w'.sees q = true) :
    t.needs d m' q = t.needs d m q := by
  induction h with
  | none => rfl
  | again _ _ ih => exact ih hq
  | listed unseen e inner k ih₁ ih₂ =>
    rename_i p _ _ w w₁ w' m m₁ m₂ m'
    have hp : w₁.sees p = true := inner.sees_entered
    have apart : ¬ (p == q) = true := by
      intro hpq
      rcases hq with hq | hq
      · exact unseen (Walk.sees_congr hpq ▸ hq)
      · exact hq (k.sees_mono ((Walk.sees_leave hp).2 (Walk.sees_congr hpq ▸ hp)))
    -- `q` is not `p`, not listed below `p`, and not listed behind it
    have h₁ : t.needs d m₁ q = t.needs d m q := (learns_of_gives e).2.1.needs apart
    have h₂ : t.needs d m₂ q = t.needs d m₁ q := by
      refine ih₁ (hq.imp (fun hq => Walk.sees_enter.2 (.inl hq)) fun hq hw₁ => ?_)
      exact hq (k.sees_mono ((Walk.sees_leave hp).2 hw₁))
    have h₃ : t.needs d m' q = t.needs d m₂ q := by
      refine ih₂ (hq.imp_left fun hq => ?_)
      exact (Walk.sees_leave hp).2 (inner.sees_mono (Walk.sees_enter.2 (.inl hq)))
    rw [h₃, h₂, h₁]

end Visits

/-- The files `new` are listed on the way from `w` to `w'`. They are answered for as they were to begin with. -/
structure Lists (t : ImportTracer) (d : Disk) (w : Walk) (m : ImportMemory) (w' : Walk) (m' : ImportMemory)
    (new : List TracedFile) : Prop where
  files : w'.files = w.files ++ new
  fresh : ∀ f ∈ new, ¬ w.sees f.path = true
  seen : ∀ q, w'.sees q = true ↔ w.sees q = true ∨ ∃ f ∈ new, (f.path == q) = true
  needs : ∀ f ∈ new, t.needs d m f.path = .ok f.dependencies
  remembers : ∀ f ∈ new, t.Remembers m' f.path f.dependencies

theorem Lists.files_listed {new₁ new₂ : List TracedFile} (h : t.Lists d (w.enter p) m w₁ m₁ new₁)
    (k : t.Lists d (w₁.leave p deps) m₂ w' m' new₂) : w'.files = w.files ++ (new₁ ++ ⟨p, deps⟩ :: new₂) := by
  rw [k.files, Walk.leave, h.files, Walk.enter, List.append_assoc, List.append_assoc, List.singleton_append]

theorem Visits.exists_lists (h : t.Visits d ps w m w' m') : ∃ new, t.Lists d w m w' m' new := by
  induction h with
  | none => exact ⟨[], (List.append_nil _).symm, by simp, by simp, by simp, by simp⟩
  | again _ _ ih => exact ih
  | listed unseen e inner k ih₁ ih₂ =>
    rename_i p _ deps w w₁ w' m m₁ m₂ m'
    obtain ⟨new₁, l₁⟩ := ih₁
    obtain ⟨new₂, l₂⟩ := ih₂
    obtain ⟨needs_p, learns, remembers_p⟩ := learns_of_gives e
    have hp : w₁.sees p = true := inner.sees_entered
    have fresh₂ : ∀ f ∈ new₂, ¬ w₁.sees f.path = true := fun f hf hw => l₂.fresh f hf ((Walk.sees_leave hp).2 hw)
    refine ⟨new₁ ++ ⟨p, deps⟩ :: new₂, l₁.files_listed l₂, ?_, ?_, ?_, ?_⟩
    · rw [List.forall_mem_append, List.forall_mem_cons]
      refine ⟨fun f hf hw => l₁.fresh f hf (Walk.sees_enter.2 (.inl hw)), unseen, fun f hf hw => fresh₂ f hf ?_⟩
      exact inner.sees_mono (Walk.sees_enter.2 (.inl hw))
    · intro q
      rw [l₂.seen, Walk.sees_leave hp, l₁.seen, Walk.sees_enter]
      simp only [List.mem_append, List.mem_cons, or_and_right, exists_or, exists_eq_left, or_assoc]
      rw [or_left_comm (a := (p == q) = true)]
    · -- neither of the files before has been asked for when a file is asked for
      rw [List.forall_mem_append, List.forall_mem_cons]
      refine ⟨fun f hf => ?_, needs_p, fun f hf => ?_⟩
      · rw [← learns.needs fun e => l₁.fresh f hf (Walk.sees_enter.2 (.inr e)), l₁.needs f hf]
      · have apart : ¬ (p == f.path) = true := fun e => fresh₂ f hf (Walk.sees_congr e ▸ hp)
        rw [← learns.needs apart, ← inner.needs_eq (.inr (fresh₂ f hf)), l₂.needs f hf]
    · rw [List.forall_mem_append, List.forall_mem_cons]
      exact ⟨fun f hf => (l₁.remembers f hf).mono k.within, remembers_p.mono (inner.within.trans k.within),
        l₂.remembers⟩

/-! ### The depth of visits -/

/-- The number of files of a list that have not been seen. -/
def unseen (files : List Path) (w : Walk) : Nat := files.countP fun p => !w.sees p

private theorem unseen_mono {files : List Path} (h : ∀ q, w.sees q = true → w₁.sees q = true) :
    unseen files w₁ ≤ unseen files w := by
  apply List.countP_mono_left
  intro q _ hq
  simp only [Bool.not_eq_true', ← Bool.not_eq_true] at hq ⊢
  exact fun hw => hq (h q hw)

theorem unseen_enter_lt {files : List Path} (hp : p ∈ files) (h : ¬ w.sees p = true) :
    unseen files (w.enter p) < unseen files w := by
  refine Graph.countP_lt_countP (fun q _ hq => ?_) hp ?_ ?_
  · simp only [Bool.not_eq_true', ← Bool.not_eq_true] at hq ⊢
    exact fun hw => hq (Walk.sees_enter.2 (.inl hw))
  · simpa using h
  · simp [Walk.sees_enter.2 (.inr BEq.rfl)]

theorem visit_succ (n : Nat) (w : Walk) (p : Path) : t.visit d (n + 1) w p =
    if w.sees p then pure w
    else do
      let deps ← t.dependencies d p
      return (← deps.foldlM (t.visit d n) (w.enter p)).leave p deps := by
  simp only [visit, Walk.sees, Bool.or_eq_true]
  rfl

/-- The first of several files is visited, and then the others. -/
private theorem ends_cons {n : Nat} (hp : ∀ deps m₁, ¬ w.sees p = true → (t.dependencies d p).Gives m deps m₁ →
      t.Ends d deps (w.enter p) m₁ (deps.foldlM (t.visit d n) (w.enter p) m₁))
    (hps : ∀ w₁ m₁, t.Visits d [p] w m w₁ m₁ → t.Ends d ps w₁ m₁ (ps.foldlM (t.visit d (n + 1)) w₁ m₁)) :
    t.Ends d (p :: ps) w m ((p :: ps).foldlM (t.visit d (n + 1)) w m) := by
  rw [List.foldlM_cons, Action.bind_apply, visit_succ]
  by_cases seen : w.sees p = true
  · rw [if_pos seen]
    have h := hps w m (.again seen .none)
    show t.Ends d (p :: ps) w m (ps.foldlM (t.visit d (n + 1)) w m)
    rcases e : ps.foldlM (t.visit d (n + 1)) w m with ⟨f | w', m'⟩
    all_goals
      rw [e] at h
      exact .again seen h
  · rw [if_neg seen, Action.bind_apply]
    rcases e : t.dependencies d p m with ⟨f | deps, m₁⟩
    · exact .refused seen e
    · have h := hp deps m₁ seen e
      simp only [Action.bind_apply]
      rcases e₁ : deps.foldlM (t.visit d n) (w.enter p) m₁ with ⟨f | w₁, m₂⟩
      · rw [e₁] at h
        exact .entered seen e h
      · rw [e₁] at h
        have k := hps (w₁.leave p deps) m₂ (.listed seen e h .none)
        show t.Ends d (p :: ps) w m (ps.foldlM (t.visit d (n + 1)) (w₁.leave p deps) m₂)
        rcases e₂ : ps.foldlM (t.visit d (n + 1)) (w₁.leave p deps) m₂ with ⟨f | w', m'⟩
        all_goals
          rw [e₂] at k
          exact .listed seen e h k

/-- Visits that may go as deep as there are files left end as they should. -/
theorem foldlM_ends {files : List Path} (hd : ∀ q ∈ d.paths, q ∈ files) (n : Nat) (ps : List Path) (w : Walk)
    (m : ImportMemory) (hm : ∀ q ∈ m.found, q ∈ files) (hps : ∀ p ∈ ps, p ∈ files) (hw : unseen files w < n) :
    t.Ends d ps w m (ps.foldlM (t.visit d n) w m) := by
  -- the depth that is left goes down from a file to those it asks for, and the list to the files beside it
  induction n generalizing ps w m with
  | zero => omega
  | succ n ihn =>
    induction ps generalizing w m with
    | nil => exact .none
    | cons p ps ihps =>
      rw [List.forall_mem_cons] at hps
      refine ends_cons (fun deps m₁ unseen e => ?_) fun w₁ m₁ h => ?_
      · -- to enter a file uses it up
        obtain ⟨needs, learns, -⟩ := learns_of_gives e
        have hlt := unseen_enter_lt hps.1 unseen
        refine ihn deps (w.enter p) m₁ (fun q hq => ?_) (fun q hq => ?_) (by omega)
        · exact (learns.found q hq).elim (hm q) (hd q)
        · exact (mem_of_needs needs hq).elim (hm q) (hd q)
      · have hle : unseen files w₁ ≤ unseen files w := unseen_mono fun q => h.sees_mono
        exact ihps w₁ m₁ (fun q hq => (h.found hq).elim (hm q) (hd q)) hps.2 (by omega)

/-- A visit of one path that may go as deep as there are files ends as one without a bound. -/
theorem visit_ends {n : Nat} (hn : d.nodes.length + m.resolutions.length + 2 ≤ n) (p : Path) :
    t.Ends d [p] {} m (t.visit d n {} p m) := by
  -- besides the path itself, only files of the disk and files found earlier can be entered
  let files := p :: (d.paths ++ m.found)
  have hlen : files.length < n := by
    have hd : d.paths.length = d.nodes.length := List.length_map _
    have hm : m.found.length ≤ m.resolutions.length := List.length_filterMap_le _ _
    simp only [files, List.length_cons, List.length_append]
    omega
  have hd : ∀ q ∈ d.paths, q ∈ files := fun q hq => List.mem_cons_of_mem _ (List.mem_append_left _ hq)
  have hm : ∀ q ∈ m.found, q ∈ files := fun q hq => List.mem_cons_of_mem _ (List.mem_append_right _ hq)
  have h : t.Ends d [p] {} m ([p].foldlM (t.visit d n) {} m) :=
    foldlM_ends hd n [p] {} m hm (by simp [files]) (Nat.lt_of_le_of_lt List.countP_le_length hlen)
  rwa [List.foldlM_cons, funext fun w => List.foldlM_nil, bind_pure] at h

theorem traceOne_apply (t : ImportTracer) (d : Disk) (p : Path) (m : ImportMemory) :
    t.traceOne d p m = ((t.visit d (d.nodes.length + m.resolutions.length + 2) {} p m).1.map (·.files),
      (t.visit d (d.nodes.length + m.resolutions.length + 2) {} p m).2) := by
  have e : t.traceOne d p m =
      (t.visit d (d.nodes.length + m.resolutions.length + 2) {} p >>= fun w => pure w.files) m := rfl
  rw [e, Action.bind_apply]
  rcases t.visit d _ {} p m with ⟨f | w, m'⟩ <;> rfl

/-- The trace of one path ends as a visit without a bound. -/
theorem traceOne_ends (t : ImportTracer) (d : Disk) (p : Path) (m : ImportMemory) :
    ∃ r, t.Ends d [p] {} m r ∧ t.traceOne d p m = (r.1.map (·.files), r.2) :=
  ⟨_, visit_ends (Nat.le_refl _) p, t.traceOne_apply d p m⟩

end ScriptBundler.ImportTracer
