import Mathlib.Data.List.Forall2
import ScriptBundler.Ignore.Walk
import ScriptBundler.Proofs.Trace.Packages

/-!
# Walks in any order

A walk that does not sort lists the entries of a directory in any order, each in front of what it holds (`MayList`,
`MayWalk`). All such walks list the same entries (`MayWalk.perm`), the sorted one is among them (`mayWalk_walk`), and
each file is listed last by one of them (`exists_mayWalk_concat`).
-/

namespace ScriptBundler

namespace Disk

variable {d : Disk} {p : Path} {start location : Location} {names : List String} {n : Nat}

/-- A walk that arrives at no link arrives there, too, if it follows links in the last place. -/
private theorem Way.followed (h : d.Way ⟨false, false⟩ n start names location)
    (own : ∀ target, d.node? location ≠ some (.link target)) : d.Way {} n start names location := by
  induction h with
  | here => exact .here
  | blank h _ ih => exact .blank h (ih own)
  | up _ ih => exact .up (ih own)
  | through o h _ ih => exact .through o h (ih own)
  | file o h => exact .file o h
  | new _ fresh => cases fresh
  | link _ _ h => exact absurd h (own _)
  | jump o h absolute _ _ ih => exact .jump o h absolute (by simp) (ih own)
  | turn o h relative _ _ ih => exact .turn o h relative (by simp) (ih own)

/-- A directory that is no link is no file. -/
private theorem isFile_of_isOwnDirectory (h : Ignore.isOwnDirectory d p = true) : d.isFile p = false := by
  unfold Ignore.isOwnDirectory at h
  split at h
  · rename_i time own
    obtain ⟨location, located, there⟩ := stat_eq_ok.1 own
    obtain ⟨askable, way⟩ := locate_iff.1 located
    have followed := locate_iff.2 ⟨askable, way.followed (by simp [there])⟩
    rw [isFile, stat_eq_ok.2 ⟨location, followed, there⟩]
  · cases h

end Disk

namespace Ignore

open Disk

variable {d : Disk} {p q root : Path} {s : Scope} {depth : Nat} {found found' : List Path}

/-! ### Below a directory -/

/-- What a walk may list of an entry, if it may list `below` of a directory. -/
def MayListEntry (d : Disk) (s : Scope) (below : List Path → Prop) (entry : Path) (block : List Path) : Prop :=
  if s.verdict entry (isOwnDirectory d entry) = .drops then block = []
  else ∃ rest, block = entry :: rest ∧ if isOwnDirectory d entry then below rest else rest = []

/-- What a walk may list below a directory, to the given depth: the entries in any order, each in front of what it
holds. -/
def MayList (d : Disk) : Nat → Scope → Path → List Path → Prop
  | 0, _, _, found => found = []
  | depth + 1, s, p, found =>
    ∃ names blocks, names.Perm (sortedNames d p) ∧
      List.Forall₂ (fun name => MayListEntry d { s with inner := Level.of d p :: s.inner }
        (MayList d depth { s with inner := Level.of d p :: s.inner } (p.join ⟨name⟩)) (p.join ⟨name⟩)) names blocks ∧
      found = blocks.flatten

/-- What the sorted walk lists of an entry. -/
def block (d : Disk) (depth : Nat) (s : Scope) (entry : Path) : List Path :=
  if s.verdict entry (isOwnDirectory d entry) = .drops then []
  else entry :: if isOwnDirectory d entry then entriesBelow d depth s entry else []

theorem entriesBelow_succ : entriesBelow d (depth + 1) s p =
    (sortedNames d p).flatMap fun name => block d depth { s with inner := Level.of d p :: s.inner } (p.join ⟨name⟩) := rfl

theorem mem_sortedNames {name : String} : name ∈ sortedNames d p ↔ ∃ names, d.list p = .ok names ∧ name ∈ names := by
  unfold sortedNames
  split
  · rename_i names e
    simp [e]
  · rename_i error e
    simp [e]

theorem mem_block_self (kept : s.verdict p (isOwnDirectory d p) ≠ .drops) : p ∈ block d depth s p := by
  rw [block, if_neg kept]
  exact List.mem_cons_self

theorem mem_block_below (own : isOwnDirectory d p = true) (kept : s.verdict p true ≠ .drops)
    (h : q ∈ entriesBelow d depth s p) : q ∈ block d depth s p := by
  rw [block, own, if_neg kept, if_pos rfl]
  exact List.mem_cons_of_mem _ h

theorem mem_entriesBelow {name : String} (listed : name ∈ sortedNames d q)
    (h : p ∈ block d depth { s with inner := Level.of d q :: s.inner } (q.join ⟨name⟩)) :
    p ∈ entriesBelow d (depth + 1) s q := by
  rw [entriesBelow_succ]
  exact List.mem_flatMap.2 ⟨name, listed, h⟩

private theorem mayListEntry_block {below : List Path → Prop} (h : below (entriesBelow d depth s p)) :
    MayListEntry d s below p (block d depth s p) := by
  unfold MayListEntry block
  split
  · rfl
  · refine ⟨_, rfl, ?_⟩
    split
    · exact h
    · rfl

private theorem mayList_entriesBelow (d : Disk) (depth : Nat) (s : Scope) (p : Path) :
    MayList d depth s p (entriesBelow d depth s p) := by
  induction depth generalizing s p with
  | zero => rfl
  | succ depth ih =>
    refine ⟨_, _, .rfl, List.forall₂_map_right_iff.2 (List.forall₂_same.2 fun name _ => ?_), rfl⟩
    exact mayListEntry_block (ih _ _)

theorem MayListEntry.perm {below : List Path → Prop} (h : MayListEntry d s below p found)
    (hb : ∀ rest, below rest → rest.Perm (entriesBelow d depth s p)) : found.Perm (block d depth s p) := by
  unfold MayListEntry at h
  unfold block
  split
  · rename_i drops
    rw [if_pos drops] at h
    rw [h]
  · rename_i keeps
    rw [if_neg keeps] at h
    obtain ⟨rest, rfl, h⟩ := h
    refine List.Perm.cons _ ?_
    split
    · rename_i own
      rw [if_pos own] at h
      exact hb rest h
    · rename_i other
      rw [if_neg other] at h
      rw [h]

theorem MayList.perm (h : MayList d depth s p found) : found.Perm (entriesBelow d depth s p) := by
  induction depth generalizing s p found with
  | zero =>
    rw [MayList] at h
    rw [h]
    rfl
  | succ depth ih =>
    obtain ⟨names, blocks, order, each, rfl⟩ := h
    rw [entriesBelow_succ]
    refine List.Perm.trans ?_ (order.flatMap_right _)
    clear order
    induction each with
    | nil => exact .rfl
    | cons entry _ rest => exact (entry.perm fun _ => ih).append rest

/-- Each file can be listed last. -/
private theorem exists_mayList_concat (h : p ∈ entriesBelow d depth s q) (file : d.isFile p = true) :
    ∃ found, MayList d depth s q (found ++ [p]) := by
  induction depth generalizing s q with
  | zero => cases h
  | succ depth ih =>
    rw [entriesBelow_succ, List.mem_flatMap] at h
    obtain ⟨name, listed, h⟩ := h
    obtain ⟨front, last⟩ : ∃ front, MayListEntry d { s with inner := Level.of d q :: s.inner }
        (MayList d depth { s with inner := Level.of d q :: s.inner } (q.join ⟨name⟩)) (q.join ⟨name⟩) (front ++ [p]) := by
      unfold block at h
      unfold MayListEntry
      split at h
      · cases h
      · rename_i keeps
        simp only [if_neg keeps]
        rcases List.mem_cons.1 h with rfl | h
        · -- a file has nothing below it
          have other : ¬ isOwnDirectory d (q.join ⟨name⟩) = true := fun own => by
            rw [isFile_of_isOwnDirectory own] at file
            cases file
          exact ⟨[], [], rfl, by rw [if_neg other]⟩
        · split at h
          · rename_i own
            obtain ⟨found, k⟩ := ih h
            exact ⟨_ :: found, found ++ [p], rfl, by rwa [if_pos own]⟩
          · cases h
    -- all other names come first, in any order
    refine ⟨((sortedNames d q).erase name).flatMap (fun name =>
      block d depth { s with inner := Level.of d q :: s.inner } (q.join ⟨name⟩)) ++ front,
      (sortedNames d q).erase name ++ [name], ((sortedNames d q).erase name).map (fun name =>
      block d depth { s with inner := Level.of d q :: s.inner } (q.join ⟨name⟩)) ++ [front ++ [p]], ?_, ?_, ?_⟩
    · exact (List.perm_append_singleton name _).trans (List.perm_cons_erase listed).symm
    · refine List.rel_append (List.forall₂_map_right_iff.2 (List.forall₂_same.2 fun name _ => ?_)) (.cons last .nil)
      exact mayListEntry_block (mayList_entriesBelow ..)
    · simp [List.flatMap_def]

/-! ### From a root -/

/-- The scope in which a walk starts. -/
def Scope.atRoot (d : Disk) (root absolute : Path) : Scope :=
  ⟨root, absolute, [], (absolute.ancestors.drop 1).map (Level.of d)⟩

/-- There are directories to be listed from the root on. -/
structure Walkable (d : Disk) (root absolute : Path) : Prop where
  named : ¬ (root == ⟨"-"⟩) = true
  directory : d.isDirectory root = true
  located : d.canonical? root = some absolute

/-- What a walk from a root may list. There is nothing to choose unless the root is a directory. -/
inductive MayWalk (d : Disk) (root : Path) : List Path → Prop
  | directory {absolute : Path} {below : List Path} (h : Walkable d root absolute)
    (k : MayList d (d.nodes.length + 1) (.atRoot d root absolute) root below) : MayWalk d root (root :: below)
  | single (h : ∀ absolute, ¬ Walkable d root absolute) : MayWalk d root (walk d root).entries

theorem Walkable.walk_eq {absolute : Path} (h : Walkable d root absolute) : walk d root =
    ⟨root :: entriesBelow d (d.nodes.length + 1) (.atRoot d root absolute) root,
      (Scope.atRoot d root absolute).outer.any (·.isFaulty)⟩ := by
  rw [walk, if_neg h.named, h.directory, h.located]
  rfl

theorem entries_of_not_walkable (h : ∀ absolute, ¬ Walkable d root absolute) :
    (walk d root).entries = if ¬ (root == ⟨"-"⟩) = true ∧ d.exists root = true then [root] else [] := by
  unfold walk
  by_cases named : (root == ⟨"-"⟩) = true
  · rw [if_pos named, if_neg fun k => k.1 named]
  · rw [if_neg named]
    split
    · rename_i directory located
      exact absurd ⟨named, directory, located⟩ (h _)
    · by_cases there : d.exists root = true
      · rw [if_pos there, if_pos ⟨named, there⟩]
      · rw [if_neg there, if_neg fun k => there k.2]

theorem mayWalk_walk (d : Disk) (root : Path) : MayWalk d root (walk d root).entries := by
  by_cases h : ∃ absolute, Walkable d root absolute
  · obtain ⟨absolute, h⟩ := h
    rw [h.walk_eq]
    exact .directory h (mayList_entriesBelow ..)
  · exact .single (not_exists.1 h)

theorem MayWalk.perm (h : MayWalk d root found) : found.Perm (walk d root).entries := by
  cases h with
  | directory h k =>
    rw [h.walk_eq]
    exact k.perm.cons root
  | single => exact .rfl

theorem exists_mayWalk_concat (h : p ∈ (walk d root).entries) (file : d.isFile p = true) :
    ∃ found, MayWalk d root (found ++ [p]) := by
  by_cases walkable : ∃ absolute, Walkable d root absolute
  · obtain ⟨absolute, walkable⟩ := walkable
    rw [walkable.walk_eq] at h
    rcases List.mem_cons.1 h with rfl | h
    · exact absurd BEq.rfl (ne_of_isFile_of_isDirectory file walkable.directory)
    · obtain ⟨found, k⟩ := exists_mayList_concat h file
      exact ⟨root :: found, .directory walkable k⟩
  · have only := MayWalk.single (not_exists.1 walkable)
    rw [entries_of_not_walkable (not_exists.1 walkable)] at h only
    split at h
    · rename_i there
      rw [if_pos there] at only
      rw [List.mem_singleton.1 h]
      exact ⟨[], only⟩
    · cases h

end Ignore

end ScriptBundler
