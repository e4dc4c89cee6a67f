import Mathlib.Data.List.Induction
import ScriptBundler.Path.Set

/-!
# Membership in sets of paths

What a set holds does not depend on how a path is spelled (`contains_congr`). Each operation on sets is described by
what the result holds; the first place of a path is the one it keeps (`insert_of_contains`, `toList_ofList`), and new
members come last (`toList_insert`, `toList_insertAll`).
-/

namespace ScriptBundler.PathSet

variable {s : PathSet} {p q : Path} {ps : List Path}

theorem contains_congr (h : (p == q) = true) : s.contains p = s.contains q := by
  simp only [contains, Path.beq_iff.1 h]

theorem contains_of_mem (h : p ∈ s.toList) : s.contains p = true := contains_iff.2 ⟨p, h, BEq.rfl⟩

theorem contains_steps {steps : List Path.Component} :
    s.steps.contains steps = true ↔ ∃ q, s.contains q = true ∧ q.components = steps := by
  simp only [contains, List.contains_iff_mem]
  constructor
  · intro h
    obtain ⟨q, _, e⟩ := List.mem_map.1 (s.steps_eq ▸ h)
    exact ⟨q, e ▸ h, e⟩
  · rintro ⟨q, h, e⟩
    exact e ▸ h

@[simp] theorem contains_empty : empty.contains p = false := rfl

@[simp] theorem toList_empty : empty.toList = [] := rfl

theorem insert_of_contains (h : s.contains p = true) : s.insert p = s := by
  unfold insert
  rw [dif_pos h]

theorem toList_insert (h : ¬ s.contains p = true) : (s.insert p).toList = s.toList ++ [p] := by
  unfold insert
  rw [dif_neg h]

theorem insertAll_append {qs : List Path} : s.insertAll (ps ++ qs) = (s.insertAll ps).insertAll qs :=
  List.foldl_append

theorem insertAll_concat : s.insertAll (ps ++ [p]) = (s.insertAll ps).insert p := List.foldl_append

theorem contains_insertAll :
    (s.insertAll ps).contains q = true ↔ s.contains q = true ∨ ∃ p ∈ ps, (p == q) = true := by
  induction ps generalizing s with
  | nil => simp [insertAll]
  | cons p ps ih =>
    show ((s.insert p).insertAll ps).contains q = true ↔ _
    rw [ih, contains_insert]
    simp only [List.mem_cons, exists_eq_or_imp, or_assoc]

theorem contains_ofList : (ofList ps).contains q = true ↔ ∃ p ∈ ps, (p == q) = true := by
  unfold ofList
  rw [contains_insertAll]
  simp

theorem mem_of_mem_insertAll (h : p ∈ (s.insertAll ps).toList) : p ∈ s.toList ∨ p ∈ ps := by
  induction ps using List.reverseRecOn with
  | nil => exact .inl h
  | append_singleton ps q ih =>
    rw [insertAll_concat] at h
    by_cases hc : (s.insertAll ps).contains q = true
    · rw [insert_of_contains hc] at h
      exact (ih h).imp_right (List.mem_append_left _)
    · rw [toList_insert hc, List.mem_append] at h
      rcases h with h | h
      · exact (ih h).imp_right (List.mem_append_left _)
      · exact .inr (List.mem_append_right _ h)

/-- Of different paths those are added that a set does not hold. -/
theorem toList_insertAll (h : ps.Pairwise fun p q => ¬ (p == q) = true) :
    (s.insertAll ps).toList = s.toList ++ ps.filter (!s.contains ·) := by
  induction ps using List.reverseRecOn with
  | nil => exact (List.append_nil _).symm
  | append_singleton ps p ih =>
    obtain ⟨hps, -, hp⟩ := List.pairwise_append.1 h
    have new : (s.insertAll ps).contains p = true ↔ s.contains p = true := by
      rw [contains_insertAll]
      exact or_iff_left fun ⟨q, hq, e⟩ => hp q hq p (List.mem_singleton.2 rfl) e
    rw [insertAll_concat, List.filter_append, ← List.append_assoc, ← ih hps]
    by_cases hc : s.contains p = true
    · rw [insert_of_contains (new.2 hc)]
      simp [hc]
    · rw [toList_insert (mt new.1 hc)]
      simp [hc]

/-- What a set holds is not put in again, however often it comes. -/
private theorem insertAll_filter (h : s.contains p = true) : s.insertAll ps = s.insertAll (ps.filter (!· == p)) := by
  induction ps generalizing s with
  | nil => rfl
  | cons q ps ih =>
    show (s.insert q).insertAll ps = _
    by_cases e : (q == p) = true
    · rw [List.filter_cons_of_neg (by simp [e]), insert_of_contains (contains_congr e ▸ h)]
      exact ih h
    · rw [List.filter_cons_of_pos (by simp [e])]
      exact ih (contains_insert.2 (.inl h))

private theorem toList_insertAll_of_new (ps : List Path) {s : PathSet} (h : ∀ q ∈ ps, ¬ s.contains q = true) :
    (s.insertAll ps).toList = s.toList ++ ps.eraseDups := by
  match ps with
  | [] => exact (List.append_nil _).symm
  | p :: ps =>
    obtain ⟨hp, hps⟩ := List.forall_mem_cons.1 h
    have fresh : ∀ q ∈ ps.filter (!· == p), ¬ (s.insert p).contains q = true := by
      intro q hq hc
      obtain ⟨hq, hqp⟩ := List.mem_filter.1 hq
      rcases contains_insert.1 hc with hc | hpq
      · exact hps q hq hc
      · simp [BEq.symm hpq] at hqp
    show ((s.insert p).insertAll ps).toList = _
    rw [insertAll_filter (contains_insert.2 (.inr BEq.rfl)), toList_insertAll_of_new _ fresh, toList_insert hp,
      List.eraseDups_cons, List.append_assoc, List.singleton_append]
termination_by ps.length
decreasing_by exact Nat.lt_succ_of_le (List.length_filter_le _ _)

/-- The members are the paths of the list, each at its first place. -/
theorem toList_ofList : (ofList ps).toList = ps.eraseDups :=
  toList_insertAll_of_new ps fun _ _ h => Bool.false_ne_true h

/-- A set is told by its members and their order. -/
private theorem toList_inj {t : PathSet} : s.toList = t.toList ↔ s = t := by
  refine ⟨fun e => ?_, congrArg toList⟩
  obtain ⟨members, distinct, steps, rfl⟩ := s
  obtain ⟨members', distinct', steps', rfl⟩ := t
  subst e
  rfl

theorem ofList_toList (s : PathSet) : ofList s.toList = s := by
  refine toList_inj.1 ?_
  rw [ofList, toList_insertAll s.distinct]
  simp

/-- Of different paths none is equal to two. -/
theorem countP_le_one (h : ps.Pairwise fun p q => ¬ (p == q) = true) (q : Path) : ps.countP (· == q) ≤ 1 := by
  induction ps with
  | nil => simp
  | cons p ps ih =>
    rw [List.pairwise_cons] at h
    rw [List.countP_cons]
    split
    · rename_i e
      have : ps.countP (· == q) = 0 :=
        List.countP_eq_zero.2 fun a ha hq => h.1 a ha (BEq.trans e (BEq.symm hq))
      omega
    · exact ih h.2

theorem countP_toList (h : s.contains p = true) : s.toList.countP (· == p) = 1 := by
  have most := countP_le_one s.distinct p
  have least : 1 ≤ s.toList.countP (· == p) := List.one_le_countP_iff.2 (contains_iff.1 h)
  omega

@[simp] theorem toList_filter {keep : Path → Bool} : (s.filter keep).toList = s.toList.filter keep := rfl

/-- A test that does not look at spellings keeps the members that pass it. -/
theorem contains_filter {keep : Path → Bool} (hk : ∀ p q, (p == q) = true → keep p = keep q) :
    (s.filter keep).contains q = true ↔ s.contains q = true ∧ keep q = true := by
  simp only [contains_iff, filter, List.mem_filter]
  constructor
  · rintro ⟨p, ⟨hp, hkp⟩, hpq⟩
    exact ⟨⟨p, hp, hpq⟩, hk p q hpq ▸ hkp⟩
  · rintro ⟨⟨p, hp, hpq⟩, hkq⟩
    exact ⟨p, ⟨hp, (hk p q hpq).trans hkq⟩, hpq⟩

end ScriptBundler.PathSet
