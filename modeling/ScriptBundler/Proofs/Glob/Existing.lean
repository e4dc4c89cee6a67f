import ScriptBundler.Proofs.Disk.Whole
import ScriptBundler.Proofs.Glob.Settled

/-!
# What a search finds exists

All that a search has found so far goes by a name: it has been looked up, it is a dot of a directory, or a directory has
listed it (`findsNamed`). So it exists on a disk on which every link leads to something, unless its path is too long or runs
into too many links (`findsExisting`), and an expansion is then its own expansion (`expand_of_whole`).
-/

namespace ScriptBundler.Glob

open Disk (Askable Held)

variable {d : Disk} {s : Search} {p path : Path} {name pattern : String} {patterns : List String} {pieces : List Piece} {n : Nat}

/-- Something goes by the path, unless it is one that cannot be asked for. -/
def Named (d : Disk) (p : Path) : Prop := Askable p → d.isNamed p = true

private theorem named_entry (hd : d.Whole) (directory : d.isDirectory path = true) (held : d.Held path name) :
    Named d (entry path name) := by
  intro ask
  unfold entry at ask ⊢
  split at ask
  · rename_i here
    rw [if_pos here]
    exact hd.isNamed_name here directory held ask
  · rename_i other
    rw [if_neg other]
    exact hd.isNamed_join directory held ask

/-- With fewer steps than these, all that is found has a name. -/
def Search.FindsNamed (s : Search) (n : Nat) : Prop := ∀ m < n, ∀ pieces path, ∀ p ∈ s.below m pieces path, Named s.disk p

private theorem named_of_mem_found (h : Named s.disk path) (hp : p ∈ s.found path) : Named s.disk p := by
  unfold Search.found at hp
  split at hp
  · cases hp
  · rwa [List.mem_singleton.1 hp]

private theorem named_of_mem_onward (below : s.FindsNamed n) (h : Named s.disk path) (hp : p ∈ s.onward n pieces path) :
    Named s.disk p := by
  cases pieces with
  | nil =>
    rw [Search.onward] at hp
    exact named_of_mem_found h hp
  | cons piece pieces =>
    cases n with
    | zero =>
      rw [Search.onward] at hp
      · cases hp
      · exact nofun
    | succ n =>
      rw [Search.onward] at hp
      · exact below n (Nat.lt_succ_self n) _ _ p hp
      · exact nofun

private theorem named_of_mem_compare (below : s.FindsNamed n) (h : Named s.disk path)
    (hp : p ∈ s.compare n pieces path name) : Named s.disk p := by
  cases n with
  | zero => cases hp
  | succ n =>
    cases pieces with
    | nil => cases hp
    | cons piece pieces =>
      rw [Search.compare] at hp
      split at hp
      · split at hp
        · exact named_of_mem_found h hp
        · exact below n (Nat.lt_succ_self n) _ _ p hp
      · cases hp

private theorem named_of_mem_visit (below : s.FindsNamed n) (h : Named s.disk path)
    (hp : p ∈ s.visit n pieces path name) : Named s.disk p := by
  cases n with
  | zero => cases hp
  | succ n =>
    have compared (pieces : List Piece) (hp : p ∈ s.compare n pieces path name) : Named s.disk p :=
      named_of_mem_compare (fun m hm => below m (Nat.lt_succ_of_lt hm)) h hp
    rw [Search.visit, List.span_eq_takeWhile_dropWhile] at hp
    split at hp
    · exact compared _ hp
    · split at hp
      · rcases List.mem_append.1 hp with hp | hp
        · split at hp
          · rwa [List.mem_singleton.1 hp]
          · exact compared _ hp
        · exact below n (Nat.lt_succ_self n) _ _ p hp
      · split at hp
        · cases hp
        · exact compared _ hp

private theorem named_of_mem_below (hd : s.disk.Whole) (below : s.FindsNamed n) (hp : p ∈ s.below n pieces path) :
    Named s.disk p := by
  cases n with
  | zero => cases hp
  | succ n =>
    have less : s.FindsNamed n := fun m hm => below m (Nat.lt_succ_of_lt hm)
    cases pieces with
    | nil => cases hp
    | cons piece pieces =>
      rw [Search.below] at hp
      split at hp
      · rename_i name literal
        dsimp only at hp
        by_cases dots : name = "." ∨ name = ".."
        · rw [if_pos dots] at hp
          split at hp
          · rename_i directory
            exact named_of_mem_onward less (named_entry hd directory (dots.imp_right .inl)) hp
          · cases hp
        · rw [if_neg dots] at hp
          split at hp
          · rename_i looked_up
            exact named_of_mem_onward less (fun _ => looked_up) hp
          · cases hp
      · split at hp
        · rename_i names directory listed
          dsimp only at hp
          rcases List.mem_append.1 hp with hp | hp
          · obtain ⟨name, special, hp⟩ := List.mem_flatMap.1 hp
            have dots : name = ".." ∨ name = "." := by
              split at special
              · simpa using (List.mem_filter.1 special).1
              · cases special
            exact named_of_mem_onward less (hd.isNamed_join directory (dots.symm.imp_right .inl)) hp
          · obtain ⟨name, mem, hp⟩ := List.mem_flatMap.1 hp
            have held : Held s.disk path name := .inr (.inr ⟨names, listed, List.mem_mergeSort.1 mem⟩)
            exact named_of_mem_visit less (named_entry hd directory held) hp
        · cases hp

/-- All that a search finds has a name. -/
theorem findsNamed (hd : s.disk.Whole) (n : Nat) : s.FindsNamed n := by
  induction n with
  | zero => exact fun m hm => absurd hm (Nat.not_lt_zero m)
  | succ n ih =>
    intro m hm pieces path p hp
    rcases Nat.lt_succ_iff_lt_or_eq.1 hm with less | rfl
    · exact ih m less pieces path p hp
    · exact named_of_mem_below hd ih hp

private theorem named_of_mem_paths {ps : List Path} (hd : d.Whole) (h : paths d pattern = .ok ps) (hp : p ∈ ps) :
    Named d p := by
  rw [paths_eq] at h
  obtain ⟨whole, -, h⟩ := Action.bind_eq_ok.1 h
  obtain ⟨pieces, -, h⟩ := Action.bind_eq_ok.1 h
  rw [← Except.ok.inj h] at hp
  exact findsNamed hd _ _ (Nat.lt_succ_self _) _ _ p hp

/-- What is found for the patterns may be asked for, and does not run into too many links. -/
def FindsNear (d : Disk) (patterns : List String) : Prop :=
  ∀ pattern ∈ patterns, ∀ ps, paths d pattern = .ok ps → ∀ p ∈ ps, Askable p ∧ d.locate p ≠ .error .tooManyLinks

/-- Where every link leads to something, all that is found near exists. -/
theorem findsExisting (hd : d.Whole) (near : FindsNear d patterns) : FindsExisting d patterns := by
  intro pattern named ps h p hp
  obtain ⟨ask, few⟩ := near pattern named ps h p hp
  exact hd.exists_of_isNamed (named_of_mem_paths hd h hp ask) few

/-- Where every link leads to something, an expansion is its own expansion. -/
theorem expand_of_whole {found : PathSet} (hd : d.Whole) (near : FindsNear d patterns) (h : expand d patterns = .ok found) :
    expand d (found.toList.map (·.text)) = .ok found :=
  expand_of_settled fun _ hp => settled_of_mem_expand (findsExisting hd near) h hp

end ScriptBundler.Glob
