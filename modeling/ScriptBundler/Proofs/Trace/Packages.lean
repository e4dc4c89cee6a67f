import ScriptBundler.Proofs.Disk.Spelling
import ScriptBundler.Proofs.Path.Ancestors
import ScriptBundler.Proofs.Trace.Resolve

/-!
# Packages above a script

A name that no alias resolves is looked for in the directories above a script, from its own up to the root of the project
(`Resolver.mem_searched_iff`). The nearest of them in which it leads to a file decides (`Resolver.resolve_package_iff`). A
directory above the root is not asked, and one in which the package leads to no file does not end the search.
-/

namespace ScriptBundler

variable {d d' : Disk} {p q own directory : Path} {request : String} {rs : Resolutions} {r : Resolver}

/-! ### Files and directories -/

private theorem Path.components_ne_nil (h : p.text ≠ "") : p.components ≠ [] := by
  rcases split_eq p with ⟨cs, -, hs⟩ | ⟨ht, -⟩ | ⟨first, rest, hf, -, -, hs⟩
  · rw [components_of_absolute hs]
    exact List.cons_ne_nil _ _
  · exact absurd ht h
  · rw [components_of_split hf hs]
    exact List.cons_ne_nil _ _

namespace Disk

theorem text_ne_empty_of_isDirectory (h : d.isDirectory p = true) : p.text ≠ "" := by
  obtain ⟨location, time, hl, -⟩ := exists_of_isDirectory h
  exact (locate_iff.1 hl).1.nonempty

/-- What can be read is a file. -/
theorem isFile_of_readText {text : String} (h : d.readText p = .ok text) : d.isFile p = true := by
  obtain ⟨content, read, -⟩ := Action.bind_eq_ok.1 h
  obtain ⟨node, stat, read⟩ := Action.bind_eq_ok.1 read
  rw [isFile, stat]
  cases node with
  | file => rfl
  | directory | link => cases read

/-- A file and a directory differ as paths. -/
theorem ne_of_isFile_of_isDirectory (file : d.isFile p = true) (directory : d.isDirectory q = true) : ¬ (p == q) = true := by
  intro same
  obtain ⟨location, content, time, hl, hn, -⟩ := exists_place file
  obtain ⟨location', time', hl', hn'⟩ := exists_of_isDirectory directory
  rw [locate_congr same hl hl', hn'] at hn
  cases hn

end Disk

namespace Resolver

/-! ### The directories that are searched -/

/-- Where a directory has a package. -/
def packagePath (directory : Path) (request : String) : Path := (directory.join ⟨"node_modules"⟩).join ⟨request⟩

/-- If the root is above a directory, the directories up to it are searched, in the order in which they are met. -/
theorem mem_searched_iff (reach : ∃ top ∈ own.ancestors, (top == r.root) = true) :
    r.searched own <+: own.ancestors ∧
    ∀ directory, directory ∈ r.searched own ↔ directory ∈ own.ancestors ∧ r.root.components <+: directory.components := by
  have found : (own.ancestors.find? (· == r.root)).isSome = true := List.find?_isSome.2 reach
  obtain ⟨top, htop⟩ := Option.isSome_iff_exists.1 found
  obtain ⟨is_top, front, back, e, before⟩ := List.find?_eq_some_iff_append.1 htop
  have searched_eq : r.searched own = front ++ [top] := by
    have none_before : front.findIdx? (· == r.root) = none := List.findIdx?_eq_none_iff.2 fun x hx => by
      simpa using before x hx
    have place : own.ancestors.findIdx? (· == r.root) = some front.length := by
      simp [e, List.findIdx?_append, none_before, List.findIdx?_cons, is_top]
    unfold searched
    simp only [place]
    rw [e, List.take_length_add_append, List.take_one, List.head?_cons]
    rfl
  have shorter := Path.pairwise_ancestors own
  rw [e, List.pairwise_append, List.pairwise_cons] at shorter
  rw [searched_eq]
  refine ⟨⟨back, by rw [e, List.append_assoc, List.singleton_append]⟩, fun directory => ?_⟩
  have is_front : ∀ q ∈ own.ancestors, q.components <+: own.components := fun _ => Path.prefix_of_mem_ancestors
  rw [← Path.beq_iff.1 is_top]
  rw [e] at is_front ⊢
  have mem_top : top ∈ front ++ top :: back := by simp
  constructor
  · intro h
    rcases List.mem_append.1 h with h | h
    · have mem : directory ∈ front ++ top :: back := List.mem_append_left _ h
      have longer := shorter.2.2 directory h top List.mem_cons_self
      exact ⟨mem, List.prefix_of_prefix_length_le (is_front _ mem_top) (is_front _ mem) (Nat.le_of_lt longer)⟩
    · rw [List.mem_singleton.1 h]
      exact ⟨mem_top, List.prefix_rfl⟩
  · rintro ⟨mem, below⟩
    rcases List.mem_append.1 mem with h | h
    · exact List.mem_append_left _ h
    · rcases List.mem_cons.1 h with rfl | h
      · exact List.mem_append_right _ (List.mem_singleton_self _)
      · have := shorter.2.1.1 directory h
        have := below.length_le
        omega

/-- A directory above a script, not above the root. -/
structure Overlooks (r : Resolver) (script directory : Path) : Prop where
  above : ∃ own, script.parent? = some own ∧ directory ∈ own.ancestors
  below : r.root.components <+: directory.components

/-- In a directory the package leads to a file, and in no nearer one. -/
def LeadsNearest (r : Resolver) (d : Disk) (script : Path) (request : String) (q : Path) : Prop :=
  ∃ directory, r.Overlooks script directory ∧ resolvePackage d (packagePath directory request) = some q ∧
    ∀ nearer, r.Overlooks script nearer → directory.components.length < nearer.components.length →
      resolvePackage d (packagePath nearer request) = none

/-- The directory of a script below the root is the root or lies below it. -/
private theorem exists_own (file : d.isFile p = true) (root : d.isDirectory r.root = true)
    (below : r.root.components <+: p.components) :
    ∃ own, p.parent? = some own ∧ own.components = p.components.dropLast ∧ r.root.components <+: own.components := by
  have nonempty := List.length_pos_iff.2 (Path.components_ne_nil (Disk.text_ne_empty_of_isDirectory root))
  obtain ⟨rest, e⟩ := below
  have apart : rest ≠ [] := by
    rintro rfl
    rw [List.append_nil] at e
    exact Disk.ne_of_isFile_of_isDirectory file root (Path.beq_iff.2 e.symm)
  rcases Path.parent?_spec p with ⟨-, top⟩ | ⟨own, hown, comps, -⟩
  · -- a path without a parent has at most one step
    have size := congrArg List.length e
    have := List.length_pos_iff.2 apart
    rw [List.length_append] at size
    rcases top with top | top
    all_goals
      rw [top] at size
      simp only [List.length_nil, List.length_singleton] at size
      omega
  · refine ⟨own, hown, comps, ?_⟩
    rw [comps, ← e, List.dropLast_append_of_ne_nil apart]
    exact List.prefix_append _ _

/-- All directories from that of the script up to the root are ancestors of it. -/
private theorem exists_directory (root : d.isDirectory r.root = true) {steps : List Path.Component}
    (above : r.root.components <+: steps) (below : steps <+: own.components) :
    ∃ directory ∈ own.ancestors, directory.components = steps := by
  refine Path.exists_mem_ancestors below fun empty => ?_
  rw [empty] at above
  exact absurd (List.prefix_nil.1 above) (Path.components_ne_nil (Disk.text_ne_empty_of_isDirectory root))

private theorem overlooks_iff {script : Path} (hown : script.parent? = some own) :
    r.Overlooks script directory ↔ directory ∈ own.ancestors ∧ r.root.components <+: directory.components := by
  refine ⟨fun ⟨⟨own', h, mem⟩, below⟩ => ?_, fun ⟨mem, below⟩ => ⟨⟨own, hown, mem⟩, below⟩⟩
  rw [hown, Option.some_inj] at h
  exact ⟨h ▸ mem, below⟩

/-- The packages are searched from the nearest directory on. -/
private theorem findPackage_eq_some_iff {script : Path} (hown : script.parent? = some own)
    (reach : ∃ top ∈ own.ancestors, (top == r.root) = true) :
    r.findPackage d own request = some q ↔ r.LeadsNearest d script request q := by
  obtain ⟨front, mem_searched⟩ := mem_searched_iff reach
  have nearer_first := (Path.pairwise_ancestors own).sublist front.sublist
  simp only [LeadsNearest, overlooks_iff hown, ← mem_searched]
  exact findSome?_eq_some_iff_of_pairwise (fun _ _ h k => Nat.lt_asymm h k) nearer_first

private theorem findPackage_eq_none_iff {script : Path} (hown : script.parent? = some own)
    (reach : ∃ top ∈ own.ancestors, (top == r.root) = true) :
    r.findPackage d own request = none ↔
      ∀ directory, r.Overlooks script directory → resolvePackage d (packagePath directory request) = none := by
  simp only [overlooks_iff hown, ← (mem_searched_iff reach).2]
  exact List.findSome?_eq_none_iff

/-- The search depends on nothing but what the directories that are searched have. -/
private theorem findPackage_congr (same : ∀ directory ∈ r.searched own,
      resolvePackage d' (packagePath directory request) = resolvePackage d (packagePath directory request)) :
    r.findPackage d' own request = r.findPackage d own request := by
  have found := congrArg (List.findSome? id) (List.map_congr_left same)
  rwa [List.findSome?_map, List.findSome?_map] at found

/-- A name that no alias resolves leads to where it leads in the nearest directory of those from the script up to the root,
if it leads to a file in one of them. It depends on no other package. -/
theorem resolve_package_iff (file : d.isFile p = true) (root : d.isDirectory r.root = true)
    (below : r.root.components <+: p.components) (bare : isPathRequest request = false)
    (plain : r.findAlias d request = none) (fresh : rs.get? p request = none) :
    (∀ q, (r.resolve d p request rs).1 = some q ↔ r.LeadsNearest d p request q) ∧
    ((r.resolve d p request rs).1 = none ↔
      ∀ directory, r.Overlooks p directory → resolvePackage d (packagePath directory request) = none) ∧
    (r.root.components <+: p.components.dropLast ∧
      ∀ steps, r.root.components <+: steps → steps <+: p.components.dropLast →
        ∃ directory, r.Overlooks p directory ∧ directory.components = steps) ∧
    ∀ d', r.findAlias d' request = none →
      (∀ directory, r.Overlooks p directory →
        resolvePackage d' (packagePath directory request) = resolvePackage d (packagePath directory request)) →
      (r.resolve d' p request rs).1 = (r.resolve d p request rs).1 := by
  obtain ⟨own, hown, comps, up⟩ := exists_own file root below
  have reach : ∃ top ∈ own.ancestors, (top == r.root) = true := by
    obtain ⟨top, mem, e⟩ := exists_directory root List.prefix_rfl up
    exact ⟨top, mem, Path.beq_iff.2 e⟩
  have resolved (d : Disk) (plain : r.findAlias d request = none) :
      (r.resolve d p request rs).1 = r.findPackage d own request := by
    rw [resolve_eq_find fresh, find_eq_of_bare bare, plain, hown, Option.none_or, Option.getD_some]
  rw [← comps, resolved d plain]
  refine ⟨fun q => findPackage_eq_some_iff hown reach, findPackage_eq_none_iff hown reach, ⟨up, fun steps above h => ?_⟩,
    fun d' plain' same => ?_⟩
  · obtain ⟨directory, mem, e⟩ := exists_directory root above h
    exact ⟨directory, (overlooks_iff hown).2 ⟨mem, e ▸ above⟩, e⟩
  · rw [resolved d' plain']
    exact findPackage_congr fun directory h =>
      same directory ((overlooks_iff hown).2 ((mem_searched_iff reach).2 directory |>.1 h))

/-- A project with one package beside the sources that leads to no file, another of its name at the root, and two packages
above the root. -/
def layered : Disk where
  workingDirectory := []
  nodes := [(["p"], .directory 0), (["p", "src"], .directory 0), (["p", "src", "a.js"], .file .empty 0),
    (["p", "src", "node_modules"], .directory 0), (["p", "src", "node_modules", "x"], .directory 0),
    (["p", "src", "node_modules", "x", "package.json"], .file "\x7b\"main\":\"gone.js\"\x7d".toUTF8 0),
    (["p", "node_modules"], .directory 0), (["p", "node_modules", "x"], .directory 0),
    (["p", "node_modules", "x", "index.js"], .file .empty 0), (["node_modules"], .directory 0),
    (["node_modules", "x"], .directory 0), (["node_modules", "x", "index.js"], .file .empty 0),
    (["node_modules", "y"], .directory 0), (["node_modules", "y", "index.js"], .file .empty 0)]

/-- The first package is passed over, and the second package above the root is not found. -/
theorem resolve_package_layered : layered.isFile ⟨"/p/src/a.js"⟩ = true ∧ layered.isDirectory ⟨"/p"⟩ = true ∧
    (⟨"/p"⟩ : Path).components <+: (⟨"/p/src/a.js"⟩ : Path).components ∧ isPathRequest "x" = false ∧
    isPathRequest "y" = false ∧ (of ⟨"/p"⟩ []).findAlias layered "x" = none ∧ (of ⟨"/p"⟩ []).findAlias layered "y" = none ∧
    Resolutions.get? [] ⟨"/p/src/a.js"⟩ "x" = none ∧ Resolutions.get? [] ⟨"/p/src/a.js"⟩ "y" = none ∧
    (of ⟨"/p"⟩ []).LeadsNearest layered ⟨"/p/src/a.js"⟩ "x" ⟨"/p/node_modules/x/index.js"⟩ ∧
    (∀ directory, (of ⟨"/p"⟩ []).Overlooks ⟨"/p/src/a.js"⟩ directory →
      resolvePackage layered (packagePath directory "y") = none) ∧
    resolvePackage layered (packagePath ⟨"/"⟩ "y") = some ⟨"/node_modules/y/index.js"⟩ := by
  have file : layered.isFile ⟨"/p/src/a.js"⟩ = true := by decide +kernel
  have root : layered.isDirectory ⟨"/p"⟩ = true := by decide +kernel
  have below : (⟨"/p"⟩ : Path).components <+: (⟨"/p/src/a.js"⟩ : Path).components := by decide
  have bare_x : isPathRequest "x" = false := by decide +kernel
  have bare_y : isPathRequest "y" = false := by decide +kernel
  have plain (request : String) : (of ⟨"/p"⟩ []).findAlias layered request = none := by
    rw [of, List.mergeSort_nil]
    rfl
  have found_x : ((of ⟨"/p"⟩ []).resolve layered ⟨"/p/src/a.js"⟩ "x" []).1 = some ⟨"/p/node_modules/x/index.js"⟩ := by
    rw [Path.eq_some_iff]
    decide +kernel
  have found_y : ((of ⟨"/p"⟩ []).resolve layered ⟨"/p/src/a.js"⟩ "y" []).1 = none := by
    rw [← Option.isNone_iff_eq_none]
    decide +kernel
  have above : resolvePackage layered (packagePath ⟨"/"⟩ "y") = some ⟨"/node_modules/y/index.js"⟩ := by
    rw [Path.eq_some_iff]
    decide +kernel
  exact ⟨file, root, below, bare_x, bare_y, plain _, plain _, rfl, rfl,
    (resolve_package_iff file root below bare_x (plain _) rfl).1 _ |>.1 found_x,
    (resolve_package_iff file root below bare_y (plain _) rfl).2.1.1 found_y, above⟩

end Resolver

end ScriptBundler
