import ScriptBundler.Path.Relative
import ScriptBundler.Proofs.Path.Under

/-!
# There and back

The way from a directory to a path goes back to where the two part, and then on (`relativeTo?_eq`). Where they part is told
from the steps as they are spelled, and each step of the directory is taken back by two dots. As long as these steps are names,
the way that is read from the directory leads to the path, however that one climbs (`clean_join_relativeTo`).
-/

namespace ScriptBundler.Path

open Disk (IsName)

variable {p base : Path} {steps : List Component}

/-! ### Steps in front -/

private theorem take_sharedSteps (as bs : List Component) :
    as.take (sharedSteps as bs) = bs.take (sharedSteps as bs) := by
  induction as generalizing bs with
  | nil => simp [sharedSteps]
  | cons a as ih =>
    cases bs with
    | nil => simp [sharedSteps]
    | cons b bs =>
      rw [sharedSteps]
      split
      · rename_i same
        rw [List.take_succ_cons, List.take_succ_cons, same, ih]
      · rw [List.take_zero, List.take_zero]

/-- Steps that lead on from a directory: two dots and proper names. -/
def Onward (steps : List Component) : Prop := ∀ step ∈ steps, step = .up ∨ ∃ name, IsName name ∧ step = .normal name

/-- An absolute path leads on from the root. -/
private theorem exists_onward (h : p.isAbsolute = true) : ∃ steps, p.components = .root :: steps ∧ Onward steps := by
  rcases split_eq p with ⟨cs, -, hs⟩ | ⟨ht, -⟩ | ⟨first, rest, -, ha, -, -⟩
  · have components_eq := components_of_absolute hs
    refine ⟨_, components_eq, fun step hstep => ?_⟩
    obtain ⟨piece, hpiece, rfl⟩ := List.mem_map.1 hstep
    have named : blank piece = false := by simpa using (List.mem_filter.1 hpiece).2
    unfold component at hstep ⊢
    split
    · rename_i dot
      rw [dot] at named
      cases named
    · split
      · exact .inl rfl
      · rename_i dot up
        rw [if_neg dot, if_neg up] at hstep
        exact .inr ⟨_, isName_of_mem_components (components_eq ▸ List.mem_cons_of_mem _ hstep), rfl⟩
  · rw [isAbsolute, ht] at h
    cases h
  · rw [ha] at h
    cases h

/-! ### Spelling a way -/

/-- What is written for steps that lead on stands for these. -/
private theorem Onward.stepsOf_filterMap (h : Onward steps) : stepsOf (steps.filterMap stepDown?) = steps ∧
    ∀ piece ∈ steps.filterMap stepDown?, '/' ∉ piece ∧ blank piece = false := by
  induction steps with
  | nil => exact ⟨rfl, nofun⟩
  | cons step steps ih =>
    rw [Onward, List.forall_mem_cons] at h
    obtain ⟨same, proper⟩ := ih h.2
    obtain ⟨piece, spelled, stands, slash, named⟩ : ∃ piece, stepDown? step = some piece ∧ component piece = step ∧
        '/' ∉ piece ∧ blank piece = false := by
      rcases h.1 with rfl | ⟨name, named, rfl⟩
      · exact ⟨['.', '.'], rfl, rfl, by decide, rfl⟩
      · exact ⟨name.toList, rfl, Disk.component_toList named, named.2.2.2, blank_of_isName named⟩
    rw [List.filterMap_cons_some spelled, stepsOf_cons named, stands, same, List.forall_mem_cons]
    exact ⟨rfl, ⟨slash, named⟩, proper⟩

/-- The path along steps, from where one is. -/
def along (steps : List Component) : Path :=
  match steps.filterMap stepDown? with
  | [] => ⟨"."⟩
  | pieces => ⟨String.ofList (joinPieces pieces)⟩

/-- The path along steps that lead on has these steps, if there are any. -/
private theorem Onward.components_along (h : Onward steps) :
    (along steps).components = if steps = [] then [.here] else steps := by
  obtain ⟨same, proper⟩ := h.stepsOf_filterMap
  unfold along
  split
  · rename_i none
    rw [none] at same
    obtain rfl : steps = [] := same.symm
    rfl
  · rename_i some_left
    rw [components_joinPieces (fun piece hpiece => (proper piece hpiece).1)
      (fun piece hpiece => (proper piece (List.mem_of_mem_head? hpiece)).2), same, if_neg]
    rintro rfl
    exact some_left rfl

private theorem Onward.isAbsolute_along (h : Onward steps) : (along steps).isAbsolute = false := by
  rw [← Bool.not_eq_true, isAbsolute_iff, h.components_along]
  split
  · simp
  · intro root
    rcases h _ root with e | ⟨name, -, e⟩ <;> cases e

private theorem Onward.cleanSteps_join_along (h : Onward steps) : (base.join (along steps)).cleanSteps =
    steps.foldl cleanStep base.cleanSteps := by
  rw [cleanSteps_join h.isAbsolute_along, h.components_along]
  split
  · rename_i none
    rw [none]
    rfl
  · rfl

/-! ### Ways -/

/-- The steps that lead from the end of some steps to the end of others: back to where the two part, then on. -/
def way (start target : List Component) : List Component :=
  List.replicate (start.drop (sharedSteps target start)).length .up ++ target.drop (sharedSteps target start)

theorem relativeTo?_eq (p base : Path) : p.relativeTo? base =
    if sharedSteps p.components base.components = 0 ∧ p.components.head? ≠ base.components.head? then none
    else some (along (way base.components p.components)) := by
  have climbs (steps : List Component) : steps.map (fun _ => ['.', '.']) =
      (List.replicate steps.length Component.up).filterMap stepDown? := by
    rw [List.map_const', List.filterMap_replicate_of_some (show stepDown? .up = some ['.', '.'] from rfl)]
  rw [relativeTo?, climbs, ← List.filterMap_append, ← way]
  split
  · rfl
  · unfold along
    cases (way base.components p.components).filterMap stepDown? <;> rfl

/-- Names are taken back by as many dots. -/
private theorem foldl_cleanStep_back (done : List Component) (names : List String) :
    (names.map Component.normal ++ List.replicate names.length Component.up).foldl cleanStep done = done := by
  induction names generalizing done with
  | nil => rfl
  | cons name names ih =>
    rw [List.length_cons, List.replicate_succ', List.map_cons, ← List.append_assoc, List.cons_append, List.foldl_concat,
      List.foldl_cons, ih]
    exact cleanStep_up_concat done (.normal name)

/-- Cleaned, the way from steps to others leads to these, if only names are taken back. -/
private theorem foldl_cleanStep_way {start target : List Component}
    (back : ∀ step ∈ start.drop (sharedSteps target start), ∃ name, step = .normal name) :
    (way start target).foldl cleanStep (start.foldl cleanStep []) = target.foldl cleanStep [] := by
  obtain ⟨names, hnames⟩ := exists_names back
  have front := take_sharedSteps target start
  unfold way
  generalize sharedSteps target start = n at hnames front
  have start_eq : start = target.take n ++ names.map .normal := by rw [← hnames, front, List.take_append_drop]
  calc (List.replicate (start.drop n).length Component.up ++ target.drop n).foldl cleanStep (start.foldl cleanStep [])
      = (target.drop n).foldl cleanStep ((names.map Component.normal ++ List.replicate names.length Component.up).foldl cleanStep
          ((target.take n).foldl cleanStep [])) := by
        rw [hnames, List.length_map, start_eq]
        simp only [List.foldl_append]
    _ = (target.take n ++ target.drop n).foldl cleanStep [] := by rw [foldl_cleanStep_back, List.foldl_append]
    _ = target.foldl cleanStep [] := by rw [List.take_append_drop]

/-- From a directory whose path does not climb there is a way to every absolute path. Read from there, it is this path, once
both are cleaned. -/
theorem clean_join_relativeTo (hp : p.isAbsolute = true) (hb : base.isAbsolute = true)
    (straight : Component.up ∉ base.components) :
    ∃ rel, p.relativeTo? base = some rel ∧ (base.join rel).clean = p.clean := by
  obtain ⟨ts, target, on⟩ := exists_onward hp
  obtain ⟨bs, start, back⟩ := exists_onward hb
  have shared : sharedSteps p.components base.components = sharedSteps ts bs + 1 := by
    rw [target, start, sharedSteps, if_pos rfl]
  have leads : Onward (way base.components p.components) := by
    rw [way, shared, target, List.drop_succ_cons]
    refine List.forall_mem_append.2 ⟨fun step hstep => .inl (List.eq_of_mem_replicate hstep), fun step hstep => ?_⟩
    exact on step (List.mem_of_mem_drop hstep)
  have names : ∀ step ∈ base.components.drop (sharedSteps p.components base.components), ∃ name, step = .normal name := by
    intro step hstep
    have climbs := fun e : step = .up => straight (e ▸ List.mem_of_mem_drop hstep)
    rw [shared, start, List.drop_succ_cons] at hstep
    obtain ⟨name, -, e⟩ := (back step (List.mem_of_mem_drop hstep)).resolve_left climbs
    exact ⟨name, e⟩
  refine ⟨along (way base.components p.components), ?_, ?_⟩
  · rw [relativeTo?_eq, if_neg (by simp [shared])]
  · have same : (base.join (along (way base.components p.components))).cleanSteps = p.cleanSteps :=
      leads.cleanSteps_join_along.trans (foldl_cleanStep_way names)
    unfold cleanSteps at same
    rw [clean, clean, same]

theorem clean_join_relativeTo_climbing : (⟨"/w//a/../../../x/./y/.."⟩ : Path).isAbsolute = true ∧
    (⟨"/w/a//b/"⟩ : Path).isAbsolute = true ∧ Component.up ∉ (⟨"/w/a//b/"⟩ : Path).components ∧
    ((⟨"/w//a/../../../x/./y/.."⟩ : Path).relativeTo? ⟨"/w/a//b/"⟩).map (·.text) = some "../../../../x/y/.." ∧
    ∃ rel, (⟨"/w//a/../../../x/./y/.."⟩ : Path).relativeTo? ⟨"/w/a//b/"⟩ = some rel ∧
      ((⟨"/w/a//b/"⟩ : Path).join rel).clean = (⟨"/w//a/../../../x/./y/.."⟩ : Path).clean :=
  ⟨by decide, by decide, by decide, by decide, clean_join_relativeTo (by decide) (by decide) (by decide)⟩

end ScriptBundler.Path
