import Mathlib.Data.List.Nodup
import ScriptBundler.Proofs.Ignore.Order
import ScriptBundler.Proofs.Project.Alias

/-!
# Aliases and the order of files

The aliases of a project are put together file by file, and of the files that declare an alias the last one counts
(`lookup_mergedAliases`). Which file is the last one is up to the walk. So the order of the walk does not matter if and
only if no two files give different targets to one alias (`projectAliases_settled_iff`).
-/

namespace ScriptBundler

open Ignore

variable {d : Disk} {root p : Path} {key : String} {targets : List String} {found : List Path}

namespace AliasTable

/-- The two tables have the same targets for each alias. -/
def Same (t u : AliasTable) : Prop := ∀ key, List.lookup key t = List.lookup key u

private theorem nodup_insert {t : AliasTable} (h : (t.map (·.1)).Nodup) (a : String × List String) :
    ((t.insert a).map (·.1)).Nodup := by
  rw [insert, List.map_append, List.nodup_append]
  refine ⟨h.sublist (List.filter_sublist.map _), by simp, fun name kept other added => ?_⟩
  rw [List.map_singleton, List.mem_singleton] at added
  obtain ⟨b, hb, rfl⟩ := List.mem_map.1 kept
  simpa [added] using (List.mem_filter.1 hb).2

private theorem nodup_update {t : AliasTable} (h : (t.map (·.1)).Nodup) (u : AliasTable) :
    ((t.update u).map (·.1)).Nodup := by
  induction u generalizing t with
  | nil => exact h
  | cons a u ih => exact ih (nodup_insert h a)

private theorem lookup_eq_some_iff {t : AliasTable} (h : (t.map (·.1)).Nodup) :
    List.lookup key t = some targets ↔ (key, targets) ∈ t := by
  induction t with
  | nil => simp
  | cons a t ih =>
    obtain ⟨name, targets'⟩ := a
    rw [List.map_cons, List.nodup_cons] at h
    rw [lookup_cons, List.mem_cons, Prod.mk.injEq]
    split_ifs with same
    · subst same
      have gone : (key, targets) ∉ t := fun mem => h.1 (List.mem_map.2 ⟨_, mem, rfl⟩)
      simp [gone, eq_comm]
    · simp [same, ih h.2]

/-- A table without repetitions may as well be read backwards. -/
private theorem lookup_reverse {t : AliasTable} (h : (t.map (·.1)).Nodup) :
    List.lookup key t.reverse = List.lookup key t := by
  have backwards : (t.reverse.map (·.1)).Nodup := by
    rwa [List.map_reverse, List.nodup_reverse]
  ext targets
  rw [lookup_eq_some_iff backwards, lookup_eq_some_iff h, List.mem_reverse]

end AliasTable

/-- The files among those found that may declare aliases. -/
def aliasFiles (found : List Path) : List Path := found.filter (·.fileName? = some "tsconfig.json")

/-- What the files declare together, in the order in which they were found. -/
def mergedAliases (d : Disk) (root : Path) (found : List Path) : AliasTable :=
  (aliasFiles found).foldl (fun t p => t.update (fileAliases d root p)) []

/-- The targets that a file gives to an alias. -/
def targetsOf (d : Disk) (root : Path) (key : String) (p : Path) : Option (List String) :=
  List.lookup key (fileAliases d root p)

private theorem nodup_fileAliases (d : Disk) (root p : Path) : ((fileAliases d root p).map (·.1)).Nodup := by
  unfold fileAliases
  split
  · unfold declaredAliases
    split
    · exact List.nodup_nil
    · extract_lets
      split
      · exact List.nodup_nil
      · exact AliasTable.nodup_update (t := []) List.nodup_nil _
  · exact List.nodup_nil

/-- Of the files that declare an alias the last one counts. -/
theorem lookup_mergedAliases (d : Disk) (root : Path) (key : String) (found : List Path) :
    List.lookup key (mergedAliases d root found) = (aliasFiles found).reverse.findSome? (targetsOf d root key) := by
  unfold mergedAliases
  induction aliasFiles found using List.reverseRecOn with
  | nil => rfl
  | append_singleton files p ih =>
    rw [List.foldl_append, List.foldl_cons, List.foldl_nil, AliasTable.lookup_update, ih,
      AliasTable.lookup_reverse (nodup_fileAliases d root p), List.reverse_append, List.reverse_singleton,
      List.singleton_append, List.findSome?_cons, targetsOf]
    cases List.lookup key (fileAliases d root p) <;> rfl

/-- A file that gives targets to an alias can be read. -/
private theorem isFile_of_targetsOf (h : targetsOf d root key p = some targets) : d.isFile p = true := by
  unfold targetsOf fileAliases at h
  split at h
  · rename_i text read
    exact Disk.isFile_of_readText read
  · cases h

/-- No two files give different targets to one alias. -/
def Harmonious (d : Disk) (root : Path) (files : List Path) : Prop :=
  ∀ p ∈ files, ∀ q ∈ files, ∀ key targets targets',
    targetsOf d root key p = some targets → targetsOf d root key q = some targets' → targets = targets'

private theorem Harmonious.lookup_eq_some_iff (h : Harmonious d root (aliasFiles found)) :
    List.lookup key (mergedAliases d root found) = some targets ↔
      ∃ p ∈ aliasFiles found, targetsOf d root key p = some targets := by
  rw [lookup_mergedAliases]
  constructor
  · intro e
    obtain ⟨p, mem, given⟩ := List.exists_of_findSome?_eq_some e
    exact ⟨p, List.mem_reverse.1 mem, given⟩
  · rintro ⟨p, mem, given⟩
    obtain ⟨targets', e⟩ : ∃ targets', (aliasFiles found).reverse.findSome? (targetsOf d root key) = some targets' :=
      Option.isSome_iff_exists.1 (List.findSome?_isSome_iff.2 ⟨p, List.mem_reverse.2 mem, by rw [given]; rfl⟩)
    obtain ⟨q, mem', given'⟩ := List.exists_of_findSome?_eq_some e
    rw [e, h p mem q (List.mem_reverse.1 mem') key _ _ given given']

/-- A file that is listed last is not overruled. -/
private theorem exists_mayWalk_lookup (hp : p ∈ aliasFiles (walk d root).entries)
    (given : targetsOf d root key p = some targets) :
    ∃ found, MayWalk d root found ∧ List.lookup key (mergedAliases d root found) = some targets := by
  obtain ⟨listed, named⟩ := List.mem_filter.1 hp
  obtain ⟨found, walked⟩ := exists_mayWalk_concat listed (isFile_of_targetsOf given)
  have files : aliasFiles (found ++ [p]) = aliasFiles found ++ [p] := by
    rw [aliasFiles, List.filter_append, List.filter_singleton, named]
    rfl
  refine ⟨_, walked, ?_⟩
  rw [lookup_mergedAliases, files, List.reverse_append, List.reverse_singleton, List.singleton_append,
    List.findSome?_cons, given]

/-- The sorted walk lists the files in one of the orders in which a walk may list them. The order does not matter if and
only if the files do not contradict each other. -/
theorem projectAliases_settled_iff :
    (MayWalk d root (walk d root).entries ∧ projectAliases d root = mergedAliases d root (walk d root).entries) ∧
    ((∀ found found', MayWalk d root found → MayWalk d root found' →
      (mergedAliases d root found).Same (mergedAliases d root found')) ↔
      Harmonious d root (aliasFiles (walk d root).entries)) := by
  refine ⟨⟨mayWalk_walk d root, rfl⟩, fun settled p hp q hq key targets targets' given given' => ?_,
    fun harmonious found found' walked walked' key => ?_⟩
  · obtain ⟨found, walked, e⟩ := exists_mayWalk_lookup hp given
    obtain ⟨found', walked', e'⟩ := exists_mayWalk_lookup hq given'
    exact Option.some.inj (e.symm.trans ((settled found found' walked walked' key).trans e'))
  · have same {found : List Path} (walked : MayWalk d root found) :
        ∀ p, p ∈ aliasFiles found ↔ p ∈ aliasFiles (walk d root).entries := fun p =>
      (walked.perm.filter _).mem_iff
    have harmonious' {found : List Path} (walked : MayWalk d root found) : Harmonious d root (aliasFiles found) :=
      fun p hp q hq => harmonious p ((same walked p).1 hp) q ((same walked q).1 hq)
    ext targets
    rw [(harmonious' walked).lookup_eq_some_iff, (harmonious' walked').lookup_eq_some_iff]
    simp only [same walked, same walked']

/-- A project and a part of it that declare the same alias. -/
def nested : Disk where
  workingDirectory := []
  nodes := [(["p"], .directory 0), (["p", "tsconfig.json"], .file declaration.toUTF8 0), (["p", "web"], .directory 0),
    (["p", "web", "tsconfig.json"], .file declaration.toUTF8 0)]
where
  declaration : String := "\x7b\"compilerOptions\":\x7b\"paths\":\x7b\"x\":[\"c\"]\x7d\x7d\x7d"

/-- The project. -/
def nestedRoot : Path := ⟨"/p"⟩

/-- The part. -/
def nestedPart : Path := nestedRoot.join ⟨"web"⟩

/-- The scope of the entries of the project. -/
def nestedScope : Scope := { Scope.atRoot nested nestedRoot nestedRoot with inner := [Level.of nested nestedRoot] }

private theorem walkable_nested : Walkable nested nestedRoot nestedRoot where
  named := by decide
  directory := by decide
  located := Path.eq_some_iff.2 (by decide)

private theorem mem_walk_nested : nestedRoot.join ⟨"tsconfig.json"⟩ ∈ (walk nested nestedRoot).entries := by
  have names : nested.list nestedRoot = .ok ["tsconfig.json", "web"] := by decide
  have listed : nestedRoot.join ⟨"tsconfig.json"⟩ ∈
      entriesBelow nested (4 + 1) (.atRoot nested nestedRoot nestedRoot) nestedRoot := by
    refine mem_entriesBelow (mem_sortedNames.2 ⟨_, names, by decide⟩) (mem_block_self ?_)
    decide +kernel
  rw [walkable_nested.walk_eq]
  exact List.mem_cons_of_mem _ listed

private theorem mem_walk_nestedPart : nestedPart.join ⟨"tsconfig.json"⟩ ∈ (walk nested nestedRoot).entries := by
  have names : nested.list nestedRoot = .ok ["tsconfig.json", "web"] := by decide
  have names' : nested.list nestedPart = .ok ["tsconfig.json"] := by decide
  have own : isOwnDirectory nested nestedPart = true := by decide
  have kept : nestedScope.verdict nestedPart true ≠ .drops := by decide +kernel
  have listed : nestedPart.join ⟨"tsconfig.json"⟩ ∈ entriesBelow nested (3 + 1) nestedScope nestedPart := by
    refine mem_entriesBelow (mem_sortedNames.2 ⟨_, names', by decide⟩) (mem_block_self ?_)
    decide +kernel
  have listed' : nestedPart.join ⟨"tsconfig.json"⟩ ∈
      entriesBelow nested (4 + 1) (.atRoot nested nestedRoot nestedRoot) nestedRoot :=
    mem_entriesBelow (mem_sortedNames.2 ⟨_, names, by decide⟩) (mem_block_below own kept listed)
  rw [walkable_nested.walk_eq]
  exact List.mem_cons_of_mem _ listed'

/-- The two files give different targets to the alias. -/
private theorem targetsOf_nested :
    targetsOf nested nestedRoot "x" (nestedRoot.join ⟨"tsconfig.json"⟩) = some ["/p/./c"] ∧
    targetsOf nested nestedRoot "x" (nestedPart.join ⟨"tsconfig.json"⟩) = some ["/p/web/./c"] := by
  decide +kernel

/-- Of the two declarations the one that is found last remains. -/
theorem mergedAliases_unsettled : ∃ found found', MayWalk nested nestedRoot found ∧ MayWalk nested nestedRoot found' ∧
    ¬ (mergedAliases nested nestedRoot found).Same (mergedAliases nested nestedRoot found') := by
  have file : nestedRoot.join ⟨"tsconfig.json"⟩ ∈ aliasFiles (walk nested nestedRoot).entries :=
    List.mem_filter.2 ⟨mem_walk_nested, by decide⟩
  have file' : nestedPart.join ⟨"tsconfig.json"⟩ ∈ aliasFiles (walk nested nestedRoot).entries :=
    List.mem_filter.2 ⟨mem_walk_nestedPart, by decide⟩
  obtain ⟨found, walked, e⟩ := exists_mayWalk_lookup file targetsOf_nested.1
  obtain ⟨found', walked', e'⟩ := exists_mayWalk_lookup file' targetsOf_nested.2
  refine ⟨found, found', walked, walked', fun same => ?_⟩
  exact absurd (e.symm.trans ((same "x").trans e')) (by decide)

end ScriptBundler
