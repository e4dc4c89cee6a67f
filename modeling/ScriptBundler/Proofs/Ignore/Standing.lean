import ScriptBundler.Proofs.Disk.Tree
import ScriptBundler.Proofs.Ignore.Order

/-!
# What a walk lists

The names that a walk meets are those of what stands in directories (`mem_sortedNames_pathOf`), and it goes on in
directories only (`Disk.Solid.of_isOwnDirectory`). So an entry that is a file has a place, and directories stand above it
(`standing_of_mem_walk`).
-/

namespace ScriptBundler

namespace Disk

variable {d : Disk} {k location : Location} {name : String}

private theorem Solid.clear (h : d.Solid k) : d.Clear k := by
  intro front hf target link
  obtain ⟨time, there⟩ := h front hf
  rw [link] at there
  cases there

/-- A directory that is listed in a solid place is solid, unless it is a link. -/
theorem Solid.of_isOwnDirectory (h : d.Solid k) (hn : ∀ n ∈ k ++ [name], IsName n)
    (own : Ignore.isOwnDirectory d (pathOf (k ++ [name])) = true) : d.Solid (k ++ [name]) := by
  unfold Ignore.isOwnDirectory at own
  split at own
  · rename_i time e
    obtain ⟨location, located, there⟩ := stat_eq_ok.1 e
    have way := ((locate_pathOf_iff hn).1 located).2
    have ordinary (n : String) (hmem : n ∈ k) : Ordinary n :=
      way.ordinary n (List.mem_append_left _ hmem) (hn n (List.mem_append_left _ hmem))
    have last : d.Way ⟨false, false⟩ 40 k [name] location :=
      (show d.Solid ([] ++ k) from h).behind_append ordinary way
    -- of a single name that is not followed, the walk ends where it stands
    have arrived : location = k ++ [name] := by
      have named := hn name (by simp)
      cases last with
      | blank blank => exact absurd blank (not_or.2 ⟨named.1, named.2.1⟩)
      | up => exact absurd rfl named.2.2.1
      | through _ _ way =>
        cases way
        rfl
      | file | link | new => rfl
      | jump _ _ _ goes | turn _ _ _ goes => exact absurd ⟨rfl, by simp⟩ goes
    rw [arrived] at there
    exact h.concat there
  · cases own

/-- What can be located by its path stands in directories. -/
theorem Standing.of_locate (solid : d.Solid k.dropLast) (there : d.node? k ≠ none) (hn : ∀ name ∈ k, IsName name)
    (located : d.locate (pathOf k) = .ok location) : d.Standing k where
  solid := solid
  there := there
  named := hn
  ordinary := fun name hname => ((locate_pathOf_iff hn).1 located).2.ordinary name hname (hn name hname)
  askable := ((locate_pathOf_iff hn).1 located).1

end Disk

namespace Ignore

open Disk

variable {d : Disk} {p root : Path} {s : Scope} {depth : Nat} {k : Location} {name : String}

theorem mem_sortedNames_pathOf (hd : d.Regular) (h : d.Solid k) (hn : ∀ n ∈ k, IsName n)
    (listed : name ∈ sortedNames d (pathOf k)) : IsName name ∧ d.node? (k ++ [name]) ≠ none := by
  obtain ⟨names, e, hname⟩ := mem_sortedNames.1 listed
  obtain ⟨location, located, -⟩ := Action.bind_eq_ok.1 e
  obtain ⟨time, directory⟩ := h k List.prefix_rfl
  rw [h.clear.locate_pathOf hn located] at located
  rw [list_of_locate located directory] at e
  cases e
  exact ⟨hd.isName_of_mem_namesIn hname, mem_namesIn.1 hname⟩

/-- What is listed below a directory is in directories. -/
private theorem exists_place_of_mem_entriesBelow (hd : d.Regular) (h : d.Solid k) (hn : ∀ n ∈ k, IsName n)
    (listed : p ∈ entriesBelow d depth s (pathOf k)) : ∃ k name, p = pathOf (k ++ [name]) ∧ d.Solid k ∧
      (∀ n ∈ k ++ [name], IsName n) ∧ d.node? (k ++ [name]) ≠ none := by
  induction depth generalizing s k with
  | zero => cases listed
  | succ depth ih =>
    rw [entriesBelow_succ, List.mem_flatMap] at listed
    obtain ⟨name, hname, listed⟩ := listed
    obtain ⟨named, there⟩ := mem_sortedNames_pathOf hd h hn hname
    have hn' : ∀ n ∈ k ++ [name], IsName n := List.forall_mem_append.2 ⟨hn, by simpa using named⟩
    rw [join_pathOf hn named, block] at listed
    split at listed
    · cases listed
    · rcases List.mem_cons.1 listed with rfl | listed
      · exact ⟨k, name, rfl, h, hn', there⟩
      · split at listed
        · rename_i own
          exact ih (h.of_isOwnDirectory hn' own) hn' listed
        · cases listed

/-- A file that is listed from a place on stands in directories. -/
theorem standing_of_mem_walk {start : Path} (hd : d.Regular) (reached : d.locate start = .ok k)
    (listed : p ∈ (walk d (pathOf k)).entries) (file : d.isFile p = true) :
    ∃ l, l ≠ [] ∧ p = pathOf l ∧ d.Standing l := by
  have hn := isName_of_locate hd.grounded reached
  have back {location : Location} (located : d.locate (pathOf k) = .ok location) : location = k :=
    (hd.anchored.clear reached).locate_pathOf hn located
  by_cases walkable : ∃ absolute, Walkable d (pathOf k) absolute
  · obtain ⟨absolute, walkable⟩ := walkable
    rw [walkable.walk_eq] at listed
    rcases List.mem_cons.1 listed with rfl | listed
    · exact absurd BEq.rfl (ne_of_isFile_of_isDirectory file walkable.directory)
    · obtain ⟨location, time, located, directory⟩ := exists_of_isDirectory walkable.directory
      rw [back located] at directory
      obtain ⟨l, name, rfl, solid, named, there⟩ :=
        exists_place_of_mem_entriesBelow hd ((hd.anchored.solid_above reached).of_above directory) hn listed
      obtain ⟨location, content, time, located, -, -⟩ := exists_place file
      exact ⟨l ++ [name], by simp, rfl, .of_locate (by rwa [List.dropLast_concat]) there named located⟩
  · rw [entries_of_not_walkable (not_exists.1 walkable)] at listed
    split at listed
    · rw [List.mem_singleton] at listed
      rw [listed] at file
      obtain ⟨location, content, time, located, there, -⟩ := exists_place file
      rw [back located] at there
      have not_root : k ≠ [] := by
        rintro rfl
        cases there
      exact ⟨k, not_root, listed, .of_locate (hd.anchored.solid_above reached) (by simp [there]) hn located⟩
    · cases listed

end Ignore

end ScriptBundler
