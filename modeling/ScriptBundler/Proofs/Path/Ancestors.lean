import ScriptBundler.Proofs.Path.Clean

/-!
# Parents and ancestors

The parent of a path has all of its steps but the last (`parent?_spec`). So the ancestors of a path are its fronts: each of
them is one (`prefix_of_mem_ancestors`), each front is among them (`exists_mem_ancestors`), and they become shorter from one
to the next (`pairwise_ancestors`).
-/

namespace ScriptBundler.Path

variable {p q : Path} {ps : List (List Char)} {steps : List Component}

/-! ### Parents -/

private theorem trimEnd_cases (ps : List (List Char)) :
    trimEnd ps = [] ∨ ∃ front last, trimEnd ps = front ++ [last] ∧ blank last = false := by
  rcases List.eq_nil_or_concat (trimEnd ps) with e | ⟨front, last, e⟩
  · exact .inl e
  · rw [List.concat_eq_append] at e
    refine .inr ⟨front, last, e, ?_⟩
    have := List.head?_dropWhile_not blank ps.reverse
    rw [trimEnd, List.reverse_eq_iff, List.reverse_append] at e
    simpa [e] using this

private theorem trimEnd_eq_nil_iff : trimEnd ps = [] ↔ stepsOf ps = [] := by
  rw [← stepsOf_trimEnd ps]
  rcases trimEnd_cases ps with e | ⟨front, last, e, hb⟩
  · simp [e, stepsOf]
  · simp [e, stepsOf_append, stepsOf_cons hb]

/-- Without the last piece that names a step, there is one step less. -/
private theorem stepsOf_dropLast_trimEnd (ps : List (List Char)) :
    stepsOf (trimEnd (trimEnd ps).dropLast) = (stepsOf ps).dropLast := by
  rw [stepsOf_trimEnd, ← stepsOf_trimEnd ps]
  rcases trimEnd_cases ps with e | ⟨front, last, e, hb⟩
  · rw [e]
    rfl
  · rw [e, List.dropLast_concat, stepsOf_append, stepsOf_cons hb]
    exact List.dropLast_concat.symm

private theorem no_slash_dropLast_trimEnd (h : ∀ piece ∈ ps, '/' ∉ piece) :
    ∀ piece ∈ trimEnd (trimEnd ps).dropLast, '/' ∉ piece :=
  fun piece hp => h piece (mem_of_mem_trimEnd (List.dropLast_subset _ (mem_of_mem_trimEnd hp)))

/-- The root and the empty path have no parent, and the parent of another path has its steps but the last. -/
theorem parent?_spec (p : Path) : (p.parent? = none ∧ (p.components = [] ∨ p.components = [.root])) ∨
    ∃ q, p.parent? = some q ∧ q.components = p.components.dropLast ∧ p.components ≠ [] ∧ p.components ≠ [.root] := by
  have steps_ne {rest : List (List Char)} (h : trimEnd rest ≠ []) : stepsOf rest ≠ [] := mt trimEnd_eq_nil_iff.2 h
  rcases split_eq p with ⟨cs, -, hs⟩ | ⟨ht, hs⟩ | ⟨first, rest, hf, ha, hp, hs⟩
  · have no_slash : ∀ piece ∈ pieces cs, '/' ∉ piece := fun _ => not_mem_of_mem_pieces
    rw [components_of_absolute hs]
    by_cases h : trimEnd (pieces cs) = []
    · refine .inl ⟨?_, .inr (by rw [trimEnd_eq_nil_iff.1 h])⟩
      simp only [parent?, hs, h]
    · refine .inr ⟨unsplit (none, trimEnd (trimEnd (pieces cs)).dropLast), ?_, ?_, List.cons_ne_nil _ _,
        fun e => steps_ne h (List.cons.inj e).2⟩
      · obtain ⟨piece, kept, e⟩ := List.exists_cons_of_ne_nil h
        simp only [parent?, hs, e]
      · rw [components_unsplit_none (no_slash_dropLast_trimEnd no_slash), stepsOf_dropLast_trimEnd,
          List.dropLast_cons_of_ne_nil (steps_ne h)]
  · refine .inl ⟨?_, .inl (components_of_empty ht)⟩
    simp only [parent?, hs]
    rfl
  · have no_slash : ∀ piece ∈ first :: rest, '/' ∉ piece := fun piece hpiece => not_mem_of_mem_pieces (hp ▸ hpiece)
    rw [List.forall_mem_cons] at no_slash
    have relative : p.components ≠ [.root] := fun e => by
      have := isAbsolute_iff.2 (e ▸ List.mem_singleton_self _ : Component.root ∈ p.components)
      rw [ha] at this
      cases this
    have comps := components_of_split hf hs
    have nonempty : p.components ≠ [] := by
      rw [comps]
      exact List.cons_ne_nil _ _
    by_cases h : trimEnd rest = []
    · refine .inr ⟨⟨""⟩, ?_, ?_, nonempty, relative⟩
      · simp only [parent?, hs, h]
      · rw [comps, trimEnd_eq_nil_iff.1 h]
        exact components_of_empty rfl
    · refine .inr ⟨unsplit (some first, trimEnd (trimEnd rest).dropLast), ?_, ?_, nonempty, relative⟩
      · obtain ⟨piece, kept, e⟩ := List.exists_cons_of_ne_nil h
        simp only [parent?, hs, e]
      · rw [components_unsplit_some hf (List.forall_mem_cons.2 ⟨no_slash.1, no_slash_dropLast_trimEnd no_slash.2⟩),
          stepsOf_dropLast_trimEnd, comps, List.dropLast_cons_of_ne_nil (steps_ne h)]

private theorem of_parent? (h : p.parent? = some q) :
    q.components = p.components.dropLast ∧ p.components ≠ [] ∧ p.components ≠ [.root] := by
  rcases parent?_spec p with ⟨e, -⟩ | ⟨q', e, spec⟩
  · rw [e] at h
    cases h
  · rw [e, Option.some_inj] at h
    exact h ▸ spec

private theorem of_parent?_eq_none (h : p.parent? = none) : p.components = [] ∨ p.components = [.root] := by
  rcases parent?_spec p with ⟨-, top⟩ | ⟨q, e, -⟩
  · exact top
  · rw [e] at h
    cases h

/-! ### Ancestors -/

private theorem ancestors_of_parent? (h : p.parent? = some q) : p.ancestors = p :: q.ancestors := by
  obtain ⟨comps, ne, -⟩ := of_parent? h
  obtain ⟨n, hn⟩ := Nat.exists_eq_succ_of_ne_zero (mt List.length_eq_zero_iff.1 ne)
  have below : q.components.length = n := by
    rw [comps, List.length_dropLast, hn, Nat.succ_eq_add_one, Nat.add_sub_cancel]
  rw [ancestors, ancestors, hn, below, ancestors.climb, h]

private theorem ancestors_of_parent?_eq_none (h : p.parent? = none) : p.ancestors = [p] := by
  rw [ancestors]
  cases p.components.length with
  | zero => rfl
  | succ n => rw [ancestors.climb, h]

/-- What holds of a path without a parent, and of one whose parent it holds of, holds of all paths. -/
private theorem parent_induction {motive : Path → Prop} (top : ∀ p, p.parent? = none → motive p)
    (below : ∀ p q, p.parent? = some q → motive q → motive p) (p : Path) : motive p := by
  induction n : p.components.length generalizing p with
  | zero =>
    rcases parent?_spec p with ⟨e, -⟩ | ⟨q, -, -, ne, -⟩
    · exact top p e
    · exact absurd (List.length_eq_zero_iff.1 n) ne
  | succ n ih =>
    rcases parent?_spec p with ⟨e, -⟩ | ⟨q, e, comps, -⟩
    · exact top p e
    · exact below p q e (ih q (by rw [comps, List.length_dropLast]; omega))

theorem prefix_of_mem_ancestors (h : q ∈ p.ancestors) : q.components <+: p.components := by
  induction p using parent_induction with
  | top p e =>
    rw [ancestors_of_parent?_eq_none e, List.mem_singleton] at h
    exact h ▸ List.prefix_rfl
  | below p parent e ih =>
    rw [ancestors_of_parent? e, List.mem_cons] at h
    rcases h with rfl | h
    · exact List.prefix_rfl
    · have up := ih h
      rw [(of_parent? e).1] at up
      exact up.trans (List.dropLast_prefix _)

theorem pairwise_ancestors (p : Path) :
    p.ancestors.Pairwise fun a b => b.components.length < a.components.length := by
  induction p using parent_induction with
  | top p e =>
    rw [ancestors_of_parent?_eq_none e]
    exact List.pairwise_singleton _ _
  | below p parent e ih =>
    rw [ancestors_of_parent? e, List.pairwise_cons]
    refine ⟨fun q hq => ?_, ih⟩
    have shorter := (prefix_of_mem_ancestors hq).length_le
    rw [(of_parent? e).1, List.length_dropLast] at shorter
    have ne : p.components ≠ [] := (of_parent? e).2.1
    have := List.length_pos_iff.2 ne
    omega

/-- Each front of the steps is an ancestor, the empty one of a relative path only. -/
theorem exists_mem_ancestors (h : steps <+: p.components) (top : steps = [] → p.isAbsolute = false) :
    ∃ q ∈ p.ancestors, q.components = steps := by
  induction p using parent_induction with
  | top p e =>
    rw [ancestors_of_parent?_eq_none e]
    refine ⟨p, List.mem_singleton_self p, ?_⟩
    rcases of_parent?_eq_none e with k | k
    · rw [k] at h ⊢
      exact (List.prefix_nil.1 h).symm
    · rw [k] at h ⊢
      rcases List.prefix_cons_iff.1 h with rfl | ⟨rest, rfl, hr⟩
      · have absolute : p.isAbsolute = true := isAbsolute_iff.2 (k ▸ List.mem_singleton_self _)
        rw [top rfl] at absolute
        cases absolute
      · rw [List.prefix_nil.1 hr]
  | below p parent e ih =>
    rw [ancestors_of_parent? e]
    obtain ⟨comps, -, -⟩ := of_parent? e
    obtain ⟨rest, hr⟩ := h
    by_cases hne : rest = []
    · rw [hne, List.append_nil] at hr
      exact ⟨p, List.mem_cons_self, hr.symm⟩
    · have up : steps <+: parent.components := by
        rw [comps, ← hr, List.dropLast_append_of_ne_nil hne]
        exact List.prefix_append _ _
      have relative : steps = [] → parent.isAbsolute = false := fun empty => by
        rw [Bool.eq_false_iff, ne_eq, isAbsolute_iff, comps]
        intro root
        have := isAbsolute_iff.2 (List.dropLast_subset _ root)
        rw [top empty] at this
        cases this
      obtain ⟨q, hq, e⟩ := ih up relative
      exact ⟨q, List.mem_cons_of_mem _ hq, e⟩

end ScriptBundler.Path
