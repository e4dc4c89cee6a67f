import ScriptBundler.Bundle.Basic
import ScriptBundler.Proofs.Glob.Anchor
import ScriptBundler.Proofs.Pairs
import ScriptBundler.Proofs.Path.Pairs

/-!
# Bundles of related entries

Where the traces of related paths list related files, the partitions of related entries have related parts
(`Partition.of_paired`). With patterns that stand for related entries, and related destinations, the bundles are related
too, or none is made in either world (`Bundle.of_paired`).
-/

namespace ScriptBundler

variable {σ τ : Type} {S : σ → τ → Prop} {E : Failure → Failure → Prop} {R : Path → Path → Prop} {xs ys : List Path}
  {trace : List Path → Action σ (List TracedFile)} {trace' : List Path → Action τ (List TracedFile)}
  {option option' : CommonOption} {b b' : Bundle}

/-- Two partitions have related parts. -/
structure Partition.Related (R : Path → Path → Prop) (P P' : Partition) : Prop where
  all : List.Forall₂ R P.all P'.all
  shared : P.shared.Related R P'.shared
  common : P.common.Related R P'.common
  uncommon : P.uncommon.Related R P'.uncommon

/-- Two bundles consist of related files. -/
structure Bundle.Related (R : Path → Path → Prop) (b b' : Bundle) : Prop where
  files : List.Forall₂ R b.files b'.files
  partition : b.partition.Related R b'.partition
  traced : b.traced.Related R b'.traced
  destination : Option.Rel R b.destination b'.destination

/-! ### Partitions -/

private theorem repeated_related (hR : Path.Matching R) (hxs : List.Forall₂ R xs ys) :
    (repeated xs).1.Related R (repeated ys).1 ∧ (repeated xs).2.Related R (repeated ys).2 := by
  have from_sets (seen again seen' again' : PathSet) (hs : seen.Related R seen') (ha : again.Related R again') :
      let step := fun (sets : PathSet × PathSet) p =>
        if sets.1.contains p then (sets.1, sets.2.insert p) else (sets.1.insert p, sets.2)
      (xs.foldl step (seen, again)).1.Related R (ys.foldl step (seen', again')).1 ∧
        (xs.foldl step (seen, again)).2.Related R (ys.foldl step (seen', again')).2 := by
    induction hxs generalizing seen again seen' again' with
    | nil => exact ⟨hs, ha⟩
    | cons h _ ih =>
      dsimp only [List.foldl_cons]
      rw [hR.contains hs h]
      split
      · exact ih _ _ _ _ hs (hR.insert ha h)
      · exact ih _ _ _ _ (hR.insert hs h) ha
  exact from_sets .empty .empty .empty .empty .nil .nil

/-- Related paths have traces of related files. -/
def TracesRelated (S : σ → τ → Prop) (E : Failure → Failure → Prop) (R : Path → Path → Prop)
    (trace : List Path → Action σ (List TracedFile)) (trace' : List Path → Action τ (List TracedFile)) : Prop :=
  ∀ xs ys, List.Forall₂ R xs ys →
    (trace xs).Paired S E (List.Forall₂ fun f g => R f.path g.path) (trace' ys)

section

variable (hR : Path.Matching R) (h : TracesRelated S E R trace trace')
include hR h

private theorem closure_paired (hxs : List.Forall₂ R xs ys) :
    (closure trace xs).Paired S E (PathSet.Related R) (closure trace' ys) := by
  refine .foldlM_forall₂ (fun s s' x y hs hx => ?_) hxs .nil
  refine (h [x] [y] (.cons hx .nil)).bind fun fs gs hfs => .pure ?_
  exact hR.insertAll hs (List.forall₂_map_left_iff.2 (List.forall₂_map_right_iff.2 hfs))

theorem Partition.of_paired (enabled : option.isEnabled = option'.isEnabled) (hxs : List.Forall₂ R xs ys) :
    (Partition.of trace xs option).Paired S E (Partition.Related R) (Partition.of trace' ys option') := by
  refine (h xs ys hxs).bind fun fs gs hfs => ?_
  have all : List.Forall₂ R (fs.map (·.path)) (gs.map (·.path)) :=
    List.forall₂_map_left_iff.2 (List.forall₂_map_right_iff.2 hfs)
  obtain ⟨unique, again⟩ := repeated_related hR all
  refine (closure_paired hR h again).bind fun shared shared' hshared => .pure ?_
  have common : (if option.isEnabled then shared else .empty).Related R (if option'.isEnabled then shared' else .empty) := by
    rw [← enabled]
    split
    · exact hshared
    · exact .nil
  exact ⟨all, hshared, common, List.rel_filter (fun x y hx => by simp only [hR.contains common hx]) unique⟩

end

/-! ### Bundles -/

/-- Related entries match patterns alike, and what the patterns name is there or not. Then the destinations are related. -/
theorem commonDestination?_related {isThere isThere' : Path → Bool} (hxs : List.Forall₂ R xs ys)
    (same : Option.Rel (fun text text' => (∀ x y, R x y → Glob.pathMatches x.text text = Glob.pathMatches y.text text') ∧
      isThere ⟨text⟩ = isThere' ⟨text'⟩ ∧ R ⟨text⟩ ⟨text'⟩) option.pattern? option'.pattern?) :
    Option.Rel R (commonDestination? xs option isThere) (commonDestination? ys option' isThere') := by
  unfold commonDestination?
  generalize option.pattern? = pattern, option'.pattern? = pattern' at same
  cases same with
  | none => exact .none
  | @some text text' same =>
    obtain ⟨matched, there, named⟩ := same
    have found : Option.Rel R (xs.find? fun x => Glob.pathMatches x.text text) (ys.find? fun y => Glob.pathMatches y.text text') := by
      induction hxs with
      | nil => exact .none
      | cons h _ ih =>
        rw [List.find?_cons, List.find?_cons, matched _ _ h]
        split
        · exact .some h
        · exact ih
    simp only [bind, Option.bind]
    generalize List.find? _ xs = x, List.find? _ ys = y at found
    cases found with
    | some h => exact .some h
    | none =>
      rw [Option.none_or, Option.none_or, there]
      split
      · exact .some named
      · exact .none

/-- Patterns that stand for related entries make related bundles, or none in either world. -/
theorem Bundle.of_paired {c : Collaborators σ} {c' : Collaborators τ} {patterns patterns' : List String}
    {options options' : Options} (hR : Path.Matching R) (h : TracesRelated S (fun _ _ => True) R c.trace c'.trace)
    (expanded : ∀ w v, S w v →
      Glob.Agree (PathSet.Related R) (Glob.expand (c.disk w) patterns) (Glob.expand (c'.disk v) patterns'))
    (enabled : options.common.isEnabled = options'.common.isEnabled)
    (destination : ∀ w v xs ys, S w v → List.Forall₂ R xs ys → Option.Rel R
      (commonDestination? xs options.common (c.isThere w)) (commonDestination? ys options'.common (c'.isThere v))) :
    (Bundle.of c patterns options).Paired S (fun _ _ => True) (Bundle.Related R) (Bundle.of c' patterns' options') := by
  have files : (expand c patterns).Paired S (fun _ _ => True) (List.Forall₂ R) (expand c' patterns') := by
    refine Action.Paired.get.bind fun w v hs => ?_
    have sets := expanded w v hs
    generalize Glob.expand (c.disk w) patterns = r, Glob.expand (c'.disk v) patterns' = r' at sets
    cases sets with
    | error => exact fun _ _ hs => ⟨.error trivial, hs⟩
    | ok sets => exact .pure sets
  refine files.bind fun xs ys hxs => ?_
  refine (Partition.of_paired hR h enabled hxs).bind fun P P' hP => ?_
  refine Action.Paired.get.bind fun w v hs => .pure ?_
  exact ⟨hxs, hP, hR.ofList hP.all, destination w v xs ys hs hxs⟩

end ScriptBundler
