import Mathlib.Data.List.Forall2
import ScriptBundler.Proofs.PathSet

/-!
# Paths in pairs

A relation matches paths if it relates equal paths only to equal ones (`Path.Matching`). Lists and sets of paths that such a
relation relates, one by one, hold related paths, and they stay related when related paths are put in.
-/

namespace ScriptBundler

/-- Related paths are equal if and only if the paths to which they are related are. -/
def Path.Matching (R : Path → Path → Prop) : Prop := ∀ x y x' y', R x y → R x' y' → (x == x') = (y == y')

/-- The members of two sets are related, one by one. -/
def PathSet.Related (R : Path → Path → Prop) (s s' : PathSet) : Prop := List.Forall₂ R s.toList s'.toList

namespace Path.Matching

variable {R : Path → Path → Prop} {x y : Path} {xs ys : List Path} {s s' : PathSet}

theorem any (hR : Matching R) (hxs : List.Forall₂ R xs ys) (hx : R x y) : xs.any (· == x) = ys.any (· == y) := by
  induction hxs with
  | nil => rfl
  | cons h _ ih => rw [List.any_cons, List.any_cons, ih, hR _ _ _ _ h hx]

theorem contains (hR : Matching R) (hs : s.Related R s') (hx : R x y) : s.contains x = s'.contains y := by
  have holds (s : PathSet) (x : Path) : s.contains x = s.toList.any (· == x) := by
    rw [Bool.eq_iff_iff, PathSet.contains_iff, List.any_eq_true]
  rw [holds, holds, hR.any hs hx]

theorem insert (hR : Matching R) (hs : s.Related R s') (hx : R x y) : (s.insert x).Related R (s'.insert y) := by
  by_cases h : s.contains x = true
  · rw [PathSet.insert_of_contains h, PathSet.insert_of_contains (hR.contains hs hx ▸ h)]
    exact hs
  · rw [PathSet.Related, PathSet.toList_insert h, PathSet.toList_insert (hR.contains hs hx ▸ h)]
    exact List.rel_append hs (.cons hx .nil)

theorem insertAll (hR : Matching R) (hs : s.Related R s') (hxs : List.Forall₂ R xs ys) :
    (s.insertAll xs).Related R (s'.insertAll ys) := by
  induction hxs generalizing s s' with
  | nil => exact hs
  | cons h _ ih => exact ih (hR.insert hs h)

theorem ofList (hR : Matching R) (hxs : List.Forall₂ R xs ys) : (PathSet.ofList xs).Related R (.ofList ys) :=
  show (PathSet.empty.insertAll xs).Related R (PathSet.empty.insertAll ys) from hR.insertAll .nil hxs

end Path.Matching

end ScriptBundler
