import ScriptBundler.Proofs.Trace.Visit

/-!
# Memories that are true to the disk

A memory is `Truthful` if what it holds is so on the disk. A tracer with such a memory answers for a file as a new one
does (`Truthful.needs_eq`), and its memory stays truthful, whether the trace fails or not. So the trace of several paths
is put together from those that new tracers make of the single ones (`trace_yields`), and it does not matter how the
memory has come about.

Paths that are spelled in two ways may be read differently and are remembered as one, so all that is asked for has to lie
in a `Domain`, where paths are told apart by their steps.
-/

namespace ScriptBundler.ImportTracer

variable {t : ImportTracer} {d : Disk} {P : Path → Prop} {m : ImportMemory} {p q : Path} {ps deps stale : List Path}

/-- Paths that are told apart by their steps, among them all to which requests lead. -/
structure Domain (t : ImportTracer) (d : Disk) (P : Path → Prop) : Prop where
  eq_of_beq : ∀ {p q}, P p → P q → (p == q) = true → p = q
  find : ∀ {p r q}, t.resolver.find d p r = some q → P q

/-- Requests lead to direct paths, and plain ones are told apart by their steps. -/
theorem domain_of_direct (hd : d.Grounded) (direct : ∀ {p}, p.Direct → P p) (plain : ∀ {p}, P p → p.Plain) : t.Domain d P where
  eq_of_beq hp hq := (plain hp).eq_of_beq (plain hq)
  find h := direct (Resolver.find_direct hd h)

/-- What a memory holds of paths with the property `P` is so on the disk. The requests of stale files need not be, and as
long as there are any, nor need the resolutions. -/
structure Truthful (t : ImportTracer) (d : Disk) (P : Path → Prop) (stale : List Path) (m : ImportMemory) : Prop where
  requests : ∀ {q loads}, P q → ¬ stale.any (· == q) = true → m.requests? q = some loads → loadsOf d {} q = .ok loads
  resolutions : stale = [] → ∀ {q r found}, P q → m.resolutions.get? q r = some found → t.resolver.find d q r = found

theorem truthful_empty : t.Truthful d P [] {} := ⟨nofun, nofun⟩

/-! ### Answers from truthful memories -/

private theorem Truthful.loadsOf_eq (h : t.Truthful d P [] m) (hp : P p) : loadsOf d m p = loadsOf d {} p := by
  cases e : m.requests? p with
  | some loads =>
    rw [h.requests hp Bool.false_ne_true e, loadsOf, e]
  | none =>
    rw [loadsOf, e]
    rfl

private theorem target_empty (r : String) : t.target d {} p r = t.resolver.find d p r := rfl

private theorem Truthful.target_eq (h : t.Truthful d P [] m) (hp : P p) : t.target d m p = t.target d {} p := by
  funext r
  rw [target_empty, target]
  cases e : m.resolutions.get? p r with
  | some found => rw [h.resolutions rfl hp e, Option.getD_some]
  | none => rw [Option.getD_none]

/-- A file is answered for as it is by a new tracer. -/
theorem Truthful.needs_eq (h : t.Truthful d P [] m) (hp : P p) : t.needs d m p = t.needs d {} p := by
  have targets_eq : t.targets d m p [] = t.targets d {} p [] := by
    funext loads
    rw [targets, targets, h.target_eq hp]
  rw [needs, needs, h.loadsOf_eq hp, targets_eq]

/-- What is learned by asking for a file is so on the disk. -/
private theorem Truthful.dependencies (hP : t.Domain d P) (h : t.Truthful d P [] m) (hp : P p) :
    t.Truthful d P [] (t.dependencies d p m).2 := by
  obtain ⟨m', e, learns, -⟩ := t.dependencies_eq d p m
  have loads_of_learned : ∀ loads, (t.dependencies d p m).2.requests? p = some loads → loadsOf d m p = .ok loads :=
    fun loads => loadsOf_of_dependencies
  rw [e] at loads_of_learned ⊢
  refine ⟨fun {q loads} hq fresh hl => ?_, fun none_stale q r found hq hf => ?_⟩
  · by_cases same : (p == q) = true
    · obtain rfl := hP.eq_of_beq hp hq same
      rw [← h.loadsOf_eq hp, loads_of_learned loads hl]
    · exact h.requests hq fresh (learns.requests same ▸ hl)
  · by_cases same : (p == q) = true
    · obtain rfl := hP.eq_of_beq hp hq same
      have target_eq : t.target d m' p r = found := by rw [target, hf, Option.getD_some]
      rw [← target_eq, learns.target, h.target_eq hp, target_empty]
    · exact h.resolutions rfl hq (learns.resolutions same ▸ hf)

/-- Files ask for files of the domain. -/
private theorem Domain.needs (hP : t.Domain d P) (h : t.needs d {} p = .ok deps) (hq : q ∈ deps) : P q := by
  obtain ⟨r, hr⟩ := exists_target_of_needs h hq
  exact hP.find hr

/-! ### Traces from truthful memories -/

private theorem dependencies_yields (hP : t.Domain d P) (hp : P p) :
    Action.Yields (t.Truthful d P []) (t.dependencies d p) (t.needs d {} p) := by
  intro m hm
  obtain ⟨m', e, -⟩ := t.dependencies_eq d p m
  have keeps := hm.dependencies hP hp
  rw [e] at keeps ⊢
  exact ⟨hm.needs_eq hp, keeps⟩

private theorem visit_yields (hP : t.Domain d P) (n : Nat) (w : Walk) (hp : P p) :
    Action.Yields (t.Truthful d P []) (t.visit d n w p) (t.visit d n w p {}).1 := by
  -- below the bound on the depth, all that is visited is answered for in one way
  induction n generalizing w p with
  | zero => exact .pure w
  | succ n ih =>
    have visited : ∃ r, Action.Yields (t.Truthful d P []) (t.visit d (n + 1) w p) r := by
      rw [visit_succ]
      by_cases seen : w.sees p = true
      · rw [if_pos seen]
        exact ⟨_, .pure w⟩
      · rw [if_neg seen]
        have below : ∀ deps, t.needs d {} p = .ok deps → Action.Yields (t.Truthful d P [])
            (deps.foldlM (t.visit d n) (w.enter p)) (deps.foldlM (fun w q => (t.visit d n w q {}).1) (w.enter p)) :=
          fun deps hdeps => .foldlM (fun q hq w => ih w (hP.needs hdeps hq)) (w.enter p)
        exact ⟨_, (dependencies_yields hP hp).bind fun deps hdeps =>
          (below deps hdeps).bind fun w _ => .pure (w.leave p deps)⟩
    obtain ⟨r, h⟩ := visited
    exact h.from_world truthful_empty

/-- The trace of a path does not depend on what is remembered. -/
theorem traceOne_yields (hP : t.Domain d P) (hp : P p) :
    Action.Yields (t.Truthful d P []) (t.traceOne d p) (t.traceOne d p {}).1 := by
  intro m hm
  rw [traceOne_apply, traceOne_apply]
  obtain ⟨e, keeps⟩ := visit_yields hP (d.nodes.length + m.resolutions.length + 2) {} hp m hm
  refine ⟨?_, keeps⟩
  -- a new tracer visits the same files with the larger bound
  have deep : t.Ends d [p] {} {} (t.visit d (d.nodes.length + m.resolutions.length + 2) {} p {}) :=
    visit_ends (Nat.add_le_add_right (Nat.add_le_add_left (Nat.zero_le _) _) 2) p
  have shallow : t.Ends d [p] {} {} (t.visit d (d.nodes.length + ({} : ImportMemory).resolutions.length + 2) {} p {}) :=
    visit_ends (Nat.le_refl _) p
  rw [e, deep.unique shallow]

/-- Nor does the trace of several paths: it is put together from those of new tracers, up to the first that fails. -/
theorem trace_yields (hP : t.Domain d P) (hps : ∀ p ∈ ps, P p) :
    Action.Yields (t.Truthful d P []) (t.trace d ps)
      ((ps.mapM fun p => (t.traceOne d p {}).1).map List.flatten) := by
  have traced := Action.Yields.mapM fun p hp => traceOne_yields hP (hps p hp)
  have flattened := traced.bind fun found _ => .pure found.flatten
  intro m hm
  obtain ⟨e, keeps⟩ := flattened m hm
  refine ⟨e.trans ?_, keeps⟩
  rcases ps.mapM fun p => (t.traceOne d p {}).1 with f | found <;> rfl

/-! ### Forgetting -/

private theorem requests?_forget : (m.forget p).requests? q = if (p == q) = true then none else m.requests? q := by
  unfold ImportMemory.forget ImportMemory.requests?
  rw [List.find?_filter]
  by_cases same : (p == q) = true
  · -- a row of `q` is one of `p`
    rw [if_pos same, List.find?_eq_none.2, Option.map_none]
    intro row _
    simp [BEq.congr_right same]
  · rw [if_neg same]
    congr 2
    funext row
    by_cases hq : (row.1 == q) = true
    · have hp : ¬ (row.1 == p) = true := fun hp => same (BEq.trans (BEq.symm hp) hq)
      simp [hq, hp]
    · simp [hq]

/-- What is left when a file has been forgotten is as true as it was, and the file is no longer stale. -/
theorem Truthful.invalidate (h : t.Truthful d P stale m) (p : Path) :
    t.Truthful d P (stale.filter (!· == p)) (invalidate p m) := by
  refine ⟨fun {q loads} hq fresh hl => ?_, fun _ _ _ _ _ hf => nomatch hf⟩
  have hl : (m.forget p).requests? q = some loads := hl
  rw [requests?_forget] at hl
  split at hl
  · cases hl
  · rename_i apart
    refine h.requests hq (fun old => fresh ?_) hl
    obtain ⟨f, hf, e⟩ := List.any_eq_true.1 old
    have kept : ¬ (f == p) = true := fun k => apart (BEq.trans (BEq.symm k) e)
    exact List.any_eq_true.2 ⟨f, List.mem_filter.2 ⟨hf, by simp [kept]⟩, e⟩

end ScriptBundler.ImportTracer
