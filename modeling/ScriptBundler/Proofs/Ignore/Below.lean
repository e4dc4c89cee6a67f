import ScriptBundler.Proofs.Disk.Tree
import ScriptBundler.Proofs.Ignore.Order

/-!
# Entries by their names

What a walk lists below a directory are paths that go on from it along names (`entriesBelow_eq`). On a regular disk these
are proper names (`isName_of_mem_namesBelow`), and no entry is listed twice (`nodup_namesBelow`, `distinct_walk`).
-/

namespace ScriptBundler.Ignore

open Disk (IsName)

variable {d : Disk} {p root : Path} {s : Scope} {depth : Nat} {name : String} {names : List String}

/-- The names that lead from a directory to the entries below it, to the given depth. -/
def namesBelow (d : Disk) : Nat → Scope → Path → List (List String)
  | 0, _, _ => []
  | depth + 1, s, p =>
    let s := { s with inner := Level.of d p :: s.inner }
    (sortedNames d p).flatMap fun name =>
      let entry := p.join ⟨name⟩
      let isDirectory := isOwnDirectory d entry
      if s.verdict entry isDirectory = .drops then []
      else [name] :: if isDirectory then (namesBelow d depth s entry).map (name :: ·) else []

theorem entriesBelow_eq : entriesBelow d depth s p = (namesBelow d depth s p).map p.under := by
  induction depth generalizing s p with
  | zero => rfl
  | succ depth ih =>
    rw [entriesBelow_succ, namesBelow, List.map_flatMap]
    refine List.flatMap_congr fun name _ => ?_
    dsimp only
    unfold block
    split
    · rfl
    · split
      · rw [ih, List.map_cons, List.map_map]
        rfl
      · rfl

/-- The entries of a directory by their names, each in front of what it holds. -/
private theorem mem_namesBelow (h : names ∈ namesBelow d (depth + 1) s p) : ∃ name ∈ sortedNames d p, names = [name] ∨
    ∃ rest ∈ namesBelow d depth { s with inner := Level.of d p :: s.inner } (p.join ⟨name⟩), names = name :: rest := by
  rw [namesBelow] at h
  obtain ⟨name, listed, h⟩ := List.mem_flatMap.1 h
  refine ⟨name, listed, ?_⟩
  dsimp only at h
  split at h
  · cases h
  · rcases List.mem_cons.1 h with rfl | h
    · exact .inl rfl
    · split at h
      · obtain ⟨rest, hrest, rfl⟩ := List.mem_map.1 h
        exact .inr ⟨rest, hrest, rfl⟩
      · cases h

theorem ne_nil_of_mem_namesBelow (h : names ∈ namesBelow d depth s p) : names ≠ [] := by
  cases depth with
  | zero => cases h
  | succ depth =>
    obtain ⟨name, -, rfl | ⟨rest, -, rfl⟩⟩ := mem_namesBelow h
    · exact List.cons_ne_nil _ _
    · exact List.cons_ne_nil _ _

/-! ### Regular disks -/

private theorem sortedNames_eq (d : Disk) (p : Path) :
    sortedNames d p = [] ∨ ∃ k, sortedNames d p = (d.namesIn k).mergeSort fun a b => a ≤ b := by
  unfold sortedNames
  split
  · rename_i names e
    obtain ⟨k, rfl⟩ := Disk.exists_namesIn_of_list e
    exact .inr ⟨k, rfl⟩
  · exact .inl rfl

theorem sortedNames_of_sorted (e : d.list p = .ok names) (sorted : names.Pairwise fun a b => decide (a ≤ b) = true) :
    sortedNames d p = names := by
  rw [sortedNames, e]
  exact List.mergeSort_of_pairwise sorted

theorem isName_of_mem_sortedNames (hd : d.Regular) (listed : name ∈ sortedNames d p) : IsName name := by
  rcases sortedNames_eq d p with none | ⟨k, e⟩
  · rw [none] at listed
    cases listed
  · rw [e, List.mem_mergeSort] at listed
    exact hd.isName_of_mem_namesIn listed

private theorem nodup_sortedNames (hd : d.Regular) : (sortedNames d p).Nodup := by
  rcases sortedNames_eq d p with none | ⟨k, e⟩
  · rw [none]
    exact List.nodup_nil
  · rw [e, (List.mergeSort_perm _ _).nodup_iff]
    exact hd.nodup_namesIn

theorem isName_of_mem_namesBelow (hd : d.Regular) (h : names ∈ namesBelow d depth s p) : ∀ name ∈ names, IsName name := by
  induction depth generalizing s p names with
  | zero => cases h
  | succ depth ih =>
    obtain ⟨name, listed, rfl | ⟨rest, hrest, rfl⟩⟩ := mem_namesBelow h
    · simpa using isName_of_mem_sortedNames hd listed
    · exact List.forall_mem_cons.2 ⟨isName_of_mem_sortedNames hd listed, ih hrest⟩

theorem nodup_namesBelow (hd : d.Regular) : (namesBelow d depth s p).Nodup := by
  induction depth generalizing s p with
  | zero => exact List.nodup_nil
  | succ depth ih =>
    rw [namesBelow, List.nodup_flatMap]
    refine ⟨fun name _ => ?_, (nodup_sortedNames hd).imp fun {name other} hne names h h' => ?_⟩
    · dsimp only
      split
      · exact List.nodup_nil
      · split
        · refine List.nodup_cons.2 ⟨?_, ih.map fun _ _ e => (List.cons.inj e).2⟩
          rw [List.mem_map]
          rintro ⟨rest, hrest, e⟩
          exact ne_nil_of_mem_namesBelow hrest (List.cons.inj e).2
        · exact List.nodup_singleton _
    · -- what is listed for a name begins with it
      have head {name : String} {P Q : Prop} [Decidable P] [Decidable Q] {below : List (List String)}
          (h : names ∈ if P then [] else [name] :: if Q then below.map (name :: ·) else []) :
          names.head? = some name := by
        split at h
        · cases h
        · rcases List.mem_cons.1 h with rfl | h
          · rfl
          · split at h
            · obtain ⟨rest, -, rfl⟩ := List.mem_map.1 h
              rfl
            · cases h
      exact hne (Option.some_inj.1 ((head h).symm.trans (head h')))

/-- No two entries of a walk are equal as paths. -/
theorem distinct_walk (hd : d.Regular) : (walk d root).entries.Pairwise fun p q => ¬ (p == q) = true := by
  by_cases walkable : ∃ absolute, Walkable d root absolute
  · obtain ⟨absolute, walkable⟩ := walkable
    have apart : ([] :: namesBelow d (d.nodes.length + 1) (.atRoot d root absolute) root).Nodup :=
      List.nodup_cons.2 ⟨fun h => ne_nil_of_mem_namesBelow h rfl, nodup_namesBelow hd⟩
    have entries_eq : (walk d root).entries =
        ([] :: namesBelow d (d.nodes.length + 1) (.atRoot d root absolute) root).map root.under := by
      rw [walkable.walk_eq, entriesBelow_eq]
      rfl
    rw [entries_eq, List.pairwise_map]
    refine apart.imp_of_mem fun {names names'} h h' hne same => hne ?_
    have proper {names : List String} (h : names ∈ [] :: namesBelow d (d.nodes.length + 1) (.atRoot d root absolute) root) :
        ∀ name ∈ names, IsName name := by
      rcases List.mem_cons.1 h with rfl | h
      · simp
      · exact isName_of_mem_namesBelow hd h
    have nonempty := Disk.text_ne_empty_of_isDirectory walkable.directory
    rw [Path.beq_iff, Path.components_under nonempty (proper h), Path.components_under nonempty (proper h'),
      List.append_cancel_left_eq] at same
    exact List.map_injective_iff.2 (fun _ _ e => Path.Component.normal.inj e) same
  · rw [entries_of_not_walkable (not_exists.1 walkable)]
    split
    · exact List.pairwise_singleton _ _
    · exact .nil

end ScriptBundler.Ignore
