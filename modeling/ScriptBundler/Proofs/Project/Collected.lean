import ScriptBundler.Project.Settings
import ScriptBundler.Proofs.Bundle.Built
import ScriptBundler.Proofs.Glob.Escape
import ScriptBundler.Proofs.Ignore.Below
import ScriptBundler.Proofs.Ignore.Standing

/-!
# Bundles of collected entries

Settings without patterns give a bundle of the entries that are collected: each is written as a pattern for its path
alone, and this pattern is expanded again (`Settings.bundle_collected`). The way back is lost for an entry whose pattern is
the name of something else, which takes its place (`Settings.bundle_misses_entry`).
-/

namespace ScriptBundler

open Disk (pathOf IsName)

variable {d : Disk} {root p : Path} {glob : String} {es : List Path}

/-! ### Collected entries -/

theorem collectEntries_eq_ok : collectEntries d root glob = .ok es ↔ (Ignore.walk d root).hasFaults = false ∧
    ((Ignore.walk d root).entries.filter (isProjectEntry d root glob)).mergeSort Path.le = es := by
  unfold collectEntries
  dsimp only
  split
  · rename_i faults
    simp [faults]
  · rename_i faults
    simp [faults]

private theorem mem_of_collectEntries (h : collectEntries d root glob = .ok es) (hp : p ∈ es) :
    p ∈ (Ignore.walk d root).entries ∧ d.isFile p = true := by
  obtain ⟨-, rfl⟩ := collectEntries_eq_ok.1 h
  obtain ⟨listed, entry⟩ := List.mem_filter.1 (List.mem_mergeSort.1 hp)
  refine ⟨listed, ?_⟩
  simp only [isProjectEntry, Bool.and_eq_true] at entry
  exact entry.1.1.1

/-- No entry is collected twice. -/
private theorem distinct_of_collectEntries (hd : d.Regular) (h : collectEntries d root glob = .ok es) :
    es.Pairwise fun p q => ¬ (p == q) = true := by
  obtain ⟨-, rfl⟩ := collectEntries_eq_ok.1 h
  refine ((List.mergeSort_perm _ _).pairwise_iff fun h k => h (BEq.symm k)).2 ?_
  exact (Ignore.distinct_walk hd).filter _

/-- A walk lists nothing if its root leads nowhere. -/
private theorem Ignore.exists_locate_of_mem_walk (h : p ∈ (walk d root).entries) : ∃ k, d.locate root = .ok k := by
  by_cases walkable : ∃ absolute, Walkable d root absolute
  · obtain ⟨absolute, walkable⟩ := walkable
    obtain ⟨k, -, located, -⟩ := Disk.exists_of_isDirectory walkable.directory
    exact ⟨k, located⟩
  · rw [entries_of_not_walkable (not_exists.1 walkable)] at h
    split at h
    · rename_i there
      rcases e : d.stat root with error | node
      · simp [Disk.exists, e, Except.toBool] at there
      · obtain ⟨k, located, -⟩ := Disk.stat_eq_ok.1 e
        exact ⟨k, located⟩
    · cases h

namespace Settings

variable {s t : Settings} {w : Workspace}

/-- A root that is there is spelled without links. -/
private theorem exists_reached_of_settle (settled : s.settle d = .ok t) (rooted : t.root = some root) :
    (∃ start k, d.locate start = .ok k ∧ root = pathOf k) ∨ ∃ e, d.locate root = .error e := by
  obtain ⟨found, hf, k⟩ := Action.bind_eq_ok.1 settled
  cases k
  cases rooted
  unfold findRoot at hf
  split at hf
  · rename_i start _
    cases hf
    rcases located : d.locate start with e | k
    · exact .inr ⟨e, by rw [canonical, Disk.canonical?, located]; exact located⟩
    · exact .inl ⟨start, k, located, Disk.canonical_of_locate located⟩
  · obtain ⟨start, -, hf⟩ := Action.bind_eq_ok.1 hf
    rcases located : d.locate start with e | k
    · rw [located] at hf
      cases hf
    · rw [located] at hf
      cases hf
      exact .inl ⟨start, k, located, rfl⟩

/-- The pattern of a collected entry stands for the entry, unless it is the name of something itself. -/
private theorem expandOne_collected (hd : d.Regular) (settled : s.settle d = .ok t) (rooted : t.root = some root)
    (collected : collectEntries d root glob = .ok es) (hp : p ∈ es) :
    Glob.expandOne d (Glob.escape p.text) = .ok [Glob.kept d p] := by
  obtain ⟨listed, file⟩ := mem_of_collectEntries collected hp
  obtain ⟨start, k, reached, rfl⟩ : ∃ start k, d.locate start = .ok k ∧ root = pathOf k := by
    rcases exists_reached_of_settle settled rooted with reached | ⟨e, nowhere⟩
    · exact reached
    · obtain ⟨k, located⟩ := Ignore.exists_locate_of_mem_walk listed
      rw [nowhere] at located
      cases located
  obtain ⟨l, hne, rfl, standing⟩ := Ignore.standing_of_mem_walk hd reached listed file
  exact Glob.expandOne_escape hd hne standing

private theorem eraseDups_sublist (ps : List Path) : ps.eraseDups.Sublist ps := by
  match ps with
  | [] => exact .slnil
  | p :: ps =>
    rw [List.eraseDups_cons]
    exact ((eraseDups_sublist (ps.filter (!· == p))).trans List.filter_sublist).cons_cons p
termination_by ps.length
decreasing_by exact Nat.lt_succ_of_le (List.length_filter_le _ _)

/-- The entries stay what they are if and only if each of them does. -/
private theorem eraseDups_map_kept_iff (distinct : es.Pairwise fun p q => ¬ (p == q) = true) :
    (es.map (Glob.kept d)).eraseDups = es ↔
      ∀ p ∈ es, d.exists ⟨Glob.escape p.text⟩ = true → Glob.escape p.text = p.text := by
  have each (p : Path) : Glob.kept d p = p ↔
      (d.exists ⟨Glob.escape p.text⟩ = true → Glob.escape p.text = p.text) := by
    unfold Glob.kept
    split
    · rename_i there
      exact ⟨fun e _ => congrArg Path.text e, fun e => congrArg Path.mk (e there)⟩
    · rename_i there
      simp [there]
  simp only [← each]
  constructor
  · intro e
    have whole : (es.map (Glob.kept d)).eraseDups = es.map (Glob.kept d) :=
      (eraseDups_sublist _).eq_of_length (by rw [e, List.length_map])
    exact List.map_inj_left.1 ((whole.symm.trans e).trans (List.map_id es).symm)
  · intro same
    rw [List.map_congr_left same, List.map_id', ← PathSet.toList_ofList, PathSet.ofList, PathSet.toList_insertAll distinct]
    simp

/-- The patterns of the collected entries. -/
private theorem entryPatterns_eq (settled : s.settle d = .ok t) (patternless : s.patterns = [])
    (rooted : t.root = some root) (collected : collectEntries d root t.entryGlob = .ok es) (found : es ≠ []) :
    t.entryPatterns d = .ok (es.map fun p => Glob.escape p.text) := by
  have unnamed : t.patterns = [] := by
    obtain ⟨r, -, k⟩ := Action.bind_eq_ok.1 settled
    cases k
    exact patternless
  rw [entryPatterns, knownRoot, rooted, unnamed]
  simp only [bind, Except.bind, List.isEmpty_nil, if_true, collected]
  cases es with
  | nil => exact absurd rfl found
  | cons p es => rfl

/-- The bundle of the given files, with the options of the settings. -/
def bundleOf (t : Settings) (d : Disk) (root : Path) (files : List Path) : Action Workspace Bundle := do
  let options ← Action.lift (t.bundleOptions d)
  Bundle.refresh (Workspace.collaborators root t.aliases) { options, files }

/-- The bundle is that of the paths for which the patterns stand. -/
theorem bundle_eq_bundleOf {patterns : List String} {found : PathSet} (rooted : t.root = some root)
    (named : t.entryPatterns w.disk = .ok patterns) (expanded : Glob.expand w.disk patterns = .ok found) :
    t.bundle w = t.bundleOf w.disk root found.toList w := by
  have files_eq : Bundle.expand (Workspace.collaborators root t.aliases) patterns w = (.ok found.toList, w) := by
    have expanded : Glob.expand ((Workspace.collaborators root t.aliases).disk w) patterns = .ok found := expanded
    rw [Bundle.expand, Action.get_bind_apply, expanded]
    rfl
  rw [bundle, Action.get_bind_apply, knownRoot, rooted, named]
  show (Action.lift (t.bundleOptions w.disk) >>= fun options =>
    Bundle.of (Workspace.collaborators root t.aliases) patterns options) w = _
  rw [bundleOf, Action.bind_apply, Action.bind_apply]
  rcases t.bundleOptions w.disk with failure | options
  · rfl
  · show Bundle.of _ _ options w = _
    rw [Bundle.of, Action.bind_apply, files_eq]
    rfl

/-- The bundle is that of the paths for which the patterns of the entries stand. -/
private theorem bundle_eq_refresh (hd : w.disk.Regular) (settled : s.settle w.disk = .ok t)
    (patternless : s.patterns = [])
    (rooted : t.root = some root) (collected : collectEntries w.disk root t.entryGlob = .ok es) (found : es ≠ []) :
    t.bundle w = t.bundleOf w.disk root (es.map (Glob.kept w.disk)).eraseDups w := by
  have expanded : Glob.expand w.disk (es.map fun p => Glob.escape p.text) = .ok (.ofList (es.map (Glob.kept w.disk))) :=
    Glob.expand_map fun p hp => expandOne_collected hd settled rooted collected hp
  rw [bundle_eq_bundleOf rooted (entryPatterns_eq settled patternless rooted collected found) expanded,
    PathSet.toList_ofList]

/-- Settings without patterns give a bundle of the paths for which the patterns of the collected entries stand. It is one
of the entries, in their order, exactly if no pattern that differs from its entry is the name of something. -/
theorem bundle_collected (hd : w.disk.Regular) (settled : s.settle w.disk = .ok t) (patternless : s.patterns = [])
    (rooted : t.root = some root) (collected : collectEntries w.disk root t.entryGlob = .ok es) (found : es ≠ []) :
    t.bundle w = t.bundleOf w.disk root (es.map (Glob.kept w.disk)).eraseDups w ∧
    ∀ b w', t.bundle.Gives w b w' →
      (b.files = es ↔ ∀ p ∈ es, w.disk.exists ⟨Glob.escape p.text⟩ = true → Glob.escape p.text = p.text) := by
  have bundle_eq := bundle_eq_refresh hd settled patternless rooted collected found
  refine ⟨bundle_eq, fun b w' given => ?_⟩
  unfold Action.Gives at given
  rw [bundle_eq] at given
  obtain ⟨options, w₁, -, refreshed⟩ := Action.gives_bind.1 given
  rw [(Bundle.gives_refresh refreshed).2.1]
  exact eraseDups_map_kept_iff (distinct_of_collectEntries hd collected)

/-- A project with a script whose escaped name is that of another one. -/
def bracketed : Disk where
  workingDirectory := []
  nodes := [(["p"], .directory 0), (["p", "src"], .directory 0), (["p", "src", "[[]id[]].js"], .file "".toUTF8 0),
    (["p", "src", "[id].js"], .file "".toUTF8 0)]

/-- The root of the project. -/
def bracketedRoot : Path := pathOf ["p"]

/-- Its directory of scripts. -/
def bracketedScripts : Path := bracketedRoot.join ⟨"src"⟩

/-- Its entries. -/
def bracketedEntries : List Path := [bracketedScripts.join ⟨"[[]id[]].js"⟩, bracketedScripts.join ⟨"[id].js"⟩]

private theorem regular_bracketed : bracketed.Regular where
  grounded := nofun
  named := by decide
  distinct := by decide
  anchored := Disk.anchored_of_root rfl

private theorem walkable_bracketed : Ignore.Walkable bracketed bracketedRoot bracketedRoot where
  named := by decide
  directory := by decide
  located := Path.eq_some_iff.2 (by decide)

private theorem entries_bracketed : (Ignore.walk bracketed bracketedRoot).entries =
    bracketedRoot :: bracketedScripts :: bracketedEntries := by
  have names : Ignore.sortedNames bracketed bracketedRoot = ["src"] :=
    Ignore.sortedNames_of_sorted (by decide) (by decide)
  have names' : Ignore.sortedNames bracketed bracketedScripts = ["[[]id[]].js", "[id].js"] :=
    Ignore.sortedNames_of_sorted (by decide) (by decide)
  have files : Ignore.entriesBelow bracketed (3 + 1) { Ignore.Scope.atRoot bracketed bracketedRoot bracketedRoot with
      inner := [Ignore.Level.of bracketed bracketedRoot] } bracketedScripts =
      bracketedEntries := by
    rw [Ignore.entriesBelow_succ, names', List.flatMap_cons, List.flatMap_singleton, Ignore.block,
      if_neg (by decide +kernel), if_neg (by decide +kernel), Ignore.block, if_neg (by decide +kernel),
      if_neg (by decide +kernel)]
    rfl
  have all : Ignore.entriesBelow bracketed (4 + 1) (.atRoot bracketed bracketedRoot bracketedRoot) bracketedRoot =
      bracketedScripts :: bracketedEntries := by
    rw [Ignore.entriesBelow_succ, names, List.flatMap_singleton, Ignore.block, if_neg (by decide +kernel),
      if_pos (by decide +kernel)]
    exact congrArg (List.cons bracketedScripts) files
  rw [walkable_bracketed.walk_eq]
  exact congrArg (List.cons bracketedRoot) all

private theorem collect_bracketed : collectEntries bracketed bracketedRoot defaultEntryGlob = .ok bracketedEntries := by
  have sorted : bracketedEntries.Pairwise fun p q => Path.le p q = true := by
    decide +kernel
  have passed : (Ignore.walk bracketed bracketedRoot).entries.filter
      (isProjectEntry bracketed bracketedRoot defaultEntryGlob) = bracketedEntries := by
    rw [entries_bracketed, bracketedEntries, List.filter_cons_of_neg (by decide +kernel),
      List.filter_cons_of_neg (by decide +kernel), List.filter_cons_of_pos (by decide +kernel),
      List.filter_cons_of_pos (by decide +kernel), List.filter_nil]
  refine collectEntries_eq_ok.2 ⟨?_, by rw [passed, List.mergeSort_of_pairwise sorted]⟩
  rw [walkable_bracketed.walk_eq]
  decide +kernel

/-- The settings of the project: its root is named, and nothing else. -/
def bracketedSettings : Settings := { root := some bracketedRoot }

private theorem settle_bracketed : bracketedSettings.settle bracketed = .ok bracketedSettings := by
  have located : bracketed.locate bracketedRoot = .ok ["p"] := by decide
  have root_eq : bracketedSettings.findRoot bracketed = .ok bracketedRoot :=
    congrArg Except.ok (Disk.canonical_of_locate located)
  have aliases_eq : projectAliases bracketed bracketedRoot = [] := by
    have none : (Ignore.walk bracketed bracketedRoot).entries.filter (·.fileName? = some "tsconfig.json") = [] := by
      rw [entries_bracketed]
      refine List.filter_eq_nil_iff.2 ?_
      decide
    rw [projectAliases, none]
    rfl
  rw [settle, root_eq]
  show Except.ok { bracketedSettings with root := some bracketedRoot, aliases := projectAliases bracketed bracketedRoot } = _
  rw [aliases_eq]
  rfl

theorem bundle_collected_bracketed : bracketed.Regular ∧ bracketedSettings.settle bracketed = .ok bracketedSettings ∧
    bracketedSettings.bundle { disk := bracketed } = bracketedSettings.bundleOf bracketed bracketedRoot
      (bracketedEntries.map (Glob.kept bracketed)).eraseDups { disk := bracketed } :=
  ⟨regular_bracketed, settle_bracketed,
    (bundle_collected (w := { disk := bracketed }) regular_bracketed settle_bracketed rfl rfl collect_bracketed
      (List.cons_ne_nil _ _)).1⟩

/-- One of the two entries is not in the bundle: its pattern is taken for the name of the other one. -/
theorem bundle_misses_entry : bracketedSettings.settle bracketed = .ok bracketedSettings ∧
    bracketedSettings.patterns = [] ∧ ∃ es b w',
      collectEntries bracketed bracketedRoot bracketedSettings.entryGlob = .ok es ∧
      es.map (·.text) = ["/p/src/[[]id[]].js", "/p/src/[id].js"] ∧
      bracketedSettings.bundle.Gives { disk := bracketed } b w' ∧ b.files.map (·.text) = ["/p/src/[[]id[]].js"] := by
  have given := Action.gives_from (x := bracketedSettings.bundleOf bracketed bracketedRoot
    (bracketedEntries.map (Glob.kept bracketed)).eraseDups) { disk := bracketed } (by decide +kernel)
  refine ⟨settle_bracketed, rfl, bracketedEntries, _, _, collect_bracketed, by decide +kernel,
    (bundle_eq_refresh (w := { disk := bracketed }) regular_bracketed settle_bracketed rfl rfl collect_bracketed
      (List.cons_ne_nil _ _)).trans given, ?_⟩
  decide +kernel

end Settings

end ScriptBundler
