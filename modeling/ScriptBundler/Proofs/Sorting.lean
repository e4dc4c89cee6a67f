import ScriptBundler.Sorting

/-!
# A sort keeps the elements and puts them in order

Sorting by pivots moves elements around and neither drops nor doubles one (`sortBy_perm`), whatever the test that
compares them answers. `split_perm` and `cons_without_perm` say so for the two parts of a split and for the pivot
that is taken out.

If the test is that of a weak order (`WeakOrder`), no element of the result is less than one in front of it
(`sortBy_ascending`): a split separates the elements by their answers (`test_of_mem_split_fst`,
`not_test_of_mem_split_snd`), and a part whose pivot is no more than the floor holds no two different elements in front.
-/

namespace ScriptBundler.Sorting

variable {α : Type}

private theorem turn_perm (n : Nat) (xs : List α) : (xs.drop n ++ xs.take n).Perm xs :=
  List.perm_append_comm.trans (by rw [List.take_append_drop])

private theorem deal_perm (test : α → Bool) (parts : List α × List α) (x : α) :
    ((deal test parts x).1 ++ (deal test parts x).2).Perm (x :: (parts.1 ++ parts.2)) := by
  have both := ((turn_perm 1 parts.2).append_left parts.1).cons x
  unfold deal
  simp only
  split
  · rw [List.append_assoc, List.singleton_append]
    exact List.perm_middle.trans both
  · exact List.perm_middle.trans both

private theorem foldl_deal_perm (test : α → Bool) (xs : List α) (parts : List α × List α) :
    ((xs.foldl (deal test) parts).1 ++ (xs.foldl (deal test) parts).2).Perm (xs ++ (parts.1 ++ parts.2)) := by
  induction xs generalizing parts with
  | nil => exact .refl _
  | cons x xs ih => exact (ih _).trans (((deal_perm test parts x).append_left xs).trans List.perm_middle)

/-- The two parts of a split hold what the list held. -/
theorem split_perm (test : α → Bool) (xs : List α) : ((split test xs).1 ++ (split test xs).2).Perm xs := by
  have h := foldl_deal_perm test (xs.drop 1 ++ xs.take 1) ([], [])
  rw [List.append_nil, List.append_nil] at h
  exact h.trans (turn_perm 1 xs)

private theorem lastFirst_perm (xs : List α) : (lastFirst xs).Perm xs := turn_perm _ xs

private theorem set_perm {xs : List α} {n : Nat} {pivot : α} (x : α) (h : xs[n]? = some pivot) :
    (pivot :: xs.set n x).Perm (x :: xs) := by
  induction xs generalizing n with
  | nil => cases h
  | cons y ys ih =>
    cases n with
    | zero =>
      cases h
      exact .swap ..
    | succ n => exact (List.Perm.swap ..).trans (((ih h).cons y).trans (.swap ..))

/-- Taking an element out and putting it in front again changes the order at most. -/
theorem cons_without_perm {xs : List α} {place : Nat} {pivot : α} (h : xs[place]? = some pivot) :
    (pivot :: without xs place).Perm xs := by
  cases xs with
  | nil => cases h
  | cons x xs =>
    cases place with
    | zero =>
      cases h
      exact .refl _
    | succ n => exact set_perm x h

private theorem stable_perm (less : α → α → Bool) (xs : List α) : (stable less xs).Perm xs := List.mergeSort_perm ..

private theorem quick_perm (less : α → α → Bool) (limit : Nat) (floor : Option α) (xs : List α) :
    (quick less limit floor xs).Perm xs := by
  induction limit generalizing floor xs with
  | zero => exact stable_perm less xs
  | succ limit ih =>
    unfold quick
    split
    · exact stable_perm less xs
    · simp only
      split
      · exact stable_perm less xs
      · rename_i pivot hp
        -- What is left of the pivot and what is right of it come from one split of the rest.
        have whole : ∀ {left right : List α} (test : α → Bool),
            left.Perm (split test (without xs (pivotPlace less xs.toArray))).1 →
            right.Perm (split test (without xs (pivotPlace less xs.toArray))).2 → (left ++ pivot :: right).Perm xs := by
          intro left right test hl hr
          have parts := (hl.append hr).trans (split_perm test _)
          exact List.perm_middle.trans ((parts.cons pivot).trans (cons_without_perm hp))
        split
        · exact whole _ (lastFirst_perm _) (ih _ _)
        · exact whole _ ((ih _ _).trans (lastFirst_perm _)) (ih _ _)

theorem sortBy_perm (less : α → α → Bool) (xs : List α) : (sortBy less xs).Perm xs := by
  unfold sortBy
  split
  · exact stable_perm less xs
  · split
    · exact .refl _
    · split
      · exact List.reverse_perm xs
      · exact quick_perm less _ _ xs

/-! ### Order -/

/-- A test that compares elements by a weak order. -/
structure WeakOrder (less : α → α → Bool) : Prop where
  asymm : ∀ a b, less a b = true → ¬ less b a = true
  trans : ∀ a b c, ¬ less b a = true → ¬ less c b = true → ¬ less c a = true

/-- No element is less than one in front of it. -/
def Ascending (less : α → α → Bool) (xs : List α) : Prop := xs.Pairwise fun a b => ¬ less b a = true

variable {less : α → α → Bool}

private theorem deal_answers {test : α → Bool} {parts : List α × List α} (h₁ : ∀ y ∈ parts.1, test y = true)
    (h₂ : ∀ y ∈ parts.2, ¬ test y = true) (x : α) :
    (∀ y ∈ (deal test parts x).1, test y = true) ∧ ∀ y ∈ (deal test parts x).2, ¬ test y = true := by
  have turned : ∀ y ∈ parts.2.drop 1 ++ parts.2.take 1, ¬ test y = true :=
    fun y hy => h₂ y ((turn_perm 1 parts.2).mem_iff.1 hy)
  unfold deal
  simp only
  split
  · rename_i hx
    refine ⟨fun y hy => ?_, turned⟩
    rcases List.mem_append.1 hy with hy | hy
    · exact h₁ y hy
    · rwa [List.mem_singleton.1 hy]
  · rename_i hx
    refine ⟨h₁, fun y hy => ?_⟩
    rcases List.mem_cons.1 hy with rfl | hy
    · exact hx
    · exact turned y hy

private theorem foldl_deal_answers {test : α → Bool} (xs : List α) {parts : List α × List α}
    (h₁ : ∀ y ∈ parts.1, test y = true) (h₂ : ∀ y ∈ parts.2, ¬ test y = true) :
    (∀ y ∈ (xs.foldl (deal test) parts).1, test y = true) ∧ ∀ y ∈ (xs.foldl (deal test) parts).2, ¬ test y = true := by
  induction xs generalizing parts with
  | nil => exact ⟨h₁, h₂⟩
  | cons x xs ih =>
    obtain ⟨k₁, k₂⟩ := deal_answers h₁ h₂ x
    exact ih k₁ k₂

/-- The first part of a split holds what passes the test. -/
theorem test_of_mem_split_fst {test : α → Bool} {xs : List α} {x : α} (h : x ∈ (split test xs).1) : test x = true :=
  (foldl_deal_answers (xs.drop 1 ++ xs.take 1) (by simp) (by simp)).1 x h

private theorem mem_of_mem_split_fst {test : α → Bool} {xs : List α} {x : α} (h : x ∈ (split test xs).1) : x ∈ xs :=
  (split_perm test xs).mem_iff.1 (List.mem_append_left _ h)

/-- The second part of a split holds what does not. -/
theorem not_test_of_mem_split_snd {test : α → Bool} {xs : List α} {x : α} (h : x ∈ (split test xs).2) :
    ¬ test x = true :=
  (foldl_deal_answers (xs.drop 1 ++ xs.take 1) (by simp) (by simp)).2 x h

private theorem stable_ascending (h : WeakOrder less) (xs : List α) : Ascending less (stable less xs) := by
  have total : ∀ a b : α, (!less b a || !less a b) = true := by
    intro a b
    by_cases hab : less a b = true
    · simp [h.asymm a b hab]
    · simp [hab]
  have sorted : (stable less xs).Pairwise fun a b => (!less b a) = true :=
    List.pairwise_mergeSort
      (fun a b c hab hbc => by simpa using h.trans a b c (by simpa using hab) (by simpa using hbc)) total xs
  exact sorted.imp fun hab => by simpa using hab

/-- Of a chain any two elements pass a test that is transitive. -/
private theorem pairwise_of_chain {r : α → α → Bool} (trans : ∀ a b c, r a b = true → r b c = true → r a c = true)
    {xs : List α} (h : chain r xs = true) : xs.Pairwise fun a b => r a b = true := by
  induction xs with
  | nil => exact .nil
  | cons x xs ih =>
    cases xs with
    | nil => exact List.pairwise_singleton ..
    | cons y ys =>
      rw [chain, Bool.and_eq_true] at h
      have rest := ih h.2
      refine List.pairwise_cons.2 ⟨fun z hz => ?_, rest⟩
      rcases List.mem_cons.1 hz with rfl | hz
      · exact h.1
      · exact trans x y z h.1 ((List.pairwise_cons.1 rest).1 z hz)

/-- Two ascending lists with a pivot between them. -/
private theorem ascending_pivot (h : WeakOrder less) {left right : List α} {pivot : α} (hl : Ascending less left)
    (hr : Ascending less right) (hlp : ∀ x ∈ left, ¬ less pivot x = true) (hpr : ∀ x ∈ right, ¬ less x pivot = true) :
    Ascending less (left ++ pivot :: right) := by
  refine List.pairwise_append.2 ⟨hl, List.pairwise_cons.2 ⟨hpr, hr⟩, fun x hx y hy => ?_⟩
  rcases List.mem_cons.1 hy with rfl | hy
  · exact hlp x hx
  · exact h.trans x pivot y (hlp x hx) (hpr y hy)

/-- A sort by pivots is in order if nothing is less than its floor. -/
private theorem quick_ascending (h : WeakOrder less) (limit : Nat) {floor : Option α} {xs : List α}
    (hfloor : ∀ f, floor = some f → ∀ x ∈ xs, ¬ less x f = true) : Ascending less (quick less limit floor xs) := by
  induction limit generalizing floor xs with
  | zero => exact stable_ascending h xs
  | succ limit ih =>
    unfold quick
    split
    · exact stable_ascending h xs
    · simp only
      split
      · exact stable_ascending h xs
      · rename_i pivot hp
        have mem_rest : ∀ {x}, x ∈ without xs (pivotPlace less xs.toArray) → x ∈ xs :=
          fun hx => (cons_without_perm hp).mem_iff.1 (List.mem_cons_of_mem _ hx)
        split
        · rename_i hf
          obtain ⟨f, rfl, hfp⟩ := (Option.any_eq_true _ _).1 hf
          refine ascending_pivot h (List.pairwise_of_forall_mem_list fun x hx y hy => ?_)
            (ih fun f hf => by cases hf) (fun x hx => ?_) (fun x hx => ?_)
          · -- what is no more than the pivot is no more than the floor, and nothing is less than that
            have hxp := test_of_mem_split_fst ((lastFirst_perm _).mem_iff.1 hx)
            have hy := mem_rest (mem_of_mem_split_fst ((lastFirst_perm _).mem_iff.1 hy))
            exact h.trans x f y (h.trans x pivot f (by simpa using hxp) (by simpa using hfp)) (hfloor f rfl y hy)
          · simpa using test_of_mem_split_fst ((lastFirst_perm _).mem_iff.1 hx)
          · have hxp := not_test_of_mem_split_snd ((quick_perm less limit none _).mem_iff.1 hx)
            exact h.asymm _ _ (by simpa using hxp)
        · refine ascending_pivot h (ih fun f hf x hx => ?_) (ih fun f hf x hx => ?_) (fun x hx => ?_) (fun x hx => ?_)
          · exact hfloor f hf x (mem_rest (mem_of_mem_split_fst ((lastFirst_perm _).mem_iff.1 hx)))
          · cases hf
            have hxp := not_test_of_mem_split_snd hx
            exact hxp
          · have hxp := test_of_mem_split_fst ((lastFirst_perm _).mem_iff.1 ((quick_perm less limit floor _).mem_iff.1 hx))
            exact h.asymm _ _ hxp
          · have hxp := not_test_of_mem_split_snd ((quick_perm less limit (some pivot) _).mem_iff.1 hx)
            exact hxp

/-- Sorting puts elements in order. -/
theorem sortBy_ascending (h : WeakOrder less) (xs : List α) : Ascending less (sortBy less xs) := by
  unfold sortBy
  split
  · exact stable_ascending h xs
  · split
    · rename_i hc
      refine (pairwise_of_chain (fun a b c hab hbc => ?_) hc).imp fun hab => by simpa using hab
      simpa using h.trans a b c (by simpa using hab) (by simpa using hbc)
    · split
      · -- a list in descending order is turned around
        rename_i hc
        refine List.pairwise_reverse.2 ((pairwise_of_chain (fun a b c hab hbc => ?_) hc).imp fun hab => ?_)
        · by_cases hca : less c a = true
          · exact hca
          · exact absurd hab (h.trans a c b hca (h.asymm c b hbc))
        · exact h.asymm _ _ hab
      · exact quick_ascending h _ fun f hf => by cases hf

end ScriptBundler.Sorting
