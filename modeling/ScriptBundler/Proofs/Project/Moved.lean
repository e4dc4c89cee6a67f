import ScriptBundler.Proofs.Ignore.Moved
import ScriptBundler.Proofs.Project.Collected

/-!
# Projects in two places

Where two roots hold the same tree, the same entries are collected below both as long as neither root is spelled as a path
of tests, or both are (`collectEntries_moved`). Below a root that is, all paths are taken for tests, and nothing is
collected (`collectEntries_eq`, `collectEntries_by_place`).
-/

namespace ScriptBundler

open Disk (IsName pathOf)
open ScriptBundler.Path (joinPieces)

variable {d : Disk} {p q root absolute other : Path} {glob : String} {names : List String} {mark cs ds : List Char}

/-! ### Marks of tests -/

private theorem occursIn_iff : occursIn mark cs = true ↔ mark <:+: cs := by
  induction cs with
  | nil => simp [occursIn]
  | cons c cs ih =>
    rw [occursIn, Bool.or_eq_true, ih, List.isPrefixOf_iff_prefix, List.infix_cons_iff]

private theorem prefix_append_slash (cs ds : List Char) (slash : '/' ∉ mark) :
    mark <+: cs ++ '/' :: ds ↔ mark <+: cs := by
  induction mark generalizing cs with
  | nil => simp
  | cons m mark ih =>
    rw [List.mem_cons, not_or] at slash
    cases cs with
    | nil => simpa using fun e => absurd e.symm slash.1
    | cons c cs => rw [List.cons_append, List.cons_prefix_cons, List.cons_prefix_cons, ih cs slash.2]

/-- What has no slash stands on one side of it. -/
private theorem infix_append_slash (slash : '/' ∉ mark) :
    mark <:+: cs ++ '/' :: ds ↔ mark <:+: cs ∨ mark <:+: ds := by
  induction cs with
  | nil =>
    have front := prefix_append_slash [] ds slash
    rw [List.nil_append] at front ⊢
    rw [List.infix_cons_iff, front, List.prefix_nil, List.infix_nil]
  | cons c cs ih =>
    have front := prefix_append_slash (c :: cs) ds slash
    rw [List.cons_append] at front ⊢
    rw [List.infix_cons_iff, List.infix_cons_iff, ih, front, or_assoc]

/-- Whether names are those of tests. -/
def isTestBelow (names : List String) : Bool := (⟨String.ofList (joinPieces (names.map String.toList))⟩ : Path).isTest

private theorem Path.isTest_iff :
    p.isTest = true ↔ ".test.".toList <:+: p.text.toList ∨ ".spec.".toList <:+: p.text.toList := by
  simp [isTest, occursIn_iff]

/-- A path is one of tests by the root or by the names below it. -/
private theorem Path.isTest_under (hp : p.text ≠ "") (hn : ∀ name ∈ names, IsName name) (hne : names ≠ []) :
    (p.under names).isTest = (p.isTest || isTestBelow names) := by
  obtain ⟨front, opens, -⟩ := opening_eq hp
  have below {mark : List Char} (slash : '/' ∉ mark) (hm : mark ≠ []) : mark <:+: (p.under names).text.toList ↔
      mark <:+: p.text.toList ∨ mark <:+: joinPieces (names.map String.toList) := by
    have spelled : mark <:+: p.text.toList ↔ mark <:+: front := by
      unfold opening at opens
      split at opens
      · rw [opens, infix_append_slash slash, List.infix_nil, or_iff_left hm]
      · rw [(List.append_inj' opens rfl).1]
    rw [toList_under hp hn hne, opens, List.append_assoc, List.singleton_append, infix_append_slash slash, spelled]
  rw [Bool.eq_iff_iff, Bool.or_eq_true, isTestBelow, isTest_iff, isTest_iff, isTest_iff, below (by decide) (by decide),
    below (by decide) (by decide), or_or_or_comm]
  simp only [String.toList_ofList]

/-! ### What is below a root -/

private theorem Path.fileName?_under (hp : p.text ≠ "") (hn : ∀ name ∈ names, IsName name) (hne : names ≠ []) :
    (p.under names).fileName? = names.getLast? := by
  rw [fileName?, components_under hp hn, List.getLast?_append_of_ne_nil _ (by simpa using hne), List.getLast?_map]
  rcases e : names.getLast? with _ | name <;> rfl

/-- Whether names lead to an entry, unless the root is a path of tests. -/
def isEntryBelow (d : Disk) (root : Path) (glob : String) (names : List String) : Bool :=
  d.isFile (root.under names) && !isTestBelow names && (root.under names).isScript &&
    Glob.pathMatches (String.ofList (joinPieces (names.map String.toList))) glob

private theorem isProjectEntry_under (hp : p.text ≠ "") (hn : ∀ name ∈ names, IsName name) (hne : names ≠ []) :
    isProjectEntry d p glob (p.under names) = (!p.isTest && isEntryBelow d p glob names) := by
  rw [isProjectEntry, Path.isTest_under hp hn hne, Path.stripPrefix?_under hp hn hne, isEntryBelow]
  cases p.isTest <;> simp

private theorem isEntryBelow_moved (same : d.SameTree p q) (hp : p.text ≠ "") (hq : q.text ≠ "")
    (hn : ∀ name ∈ names, IsName name)
    (hne : names ≠ []) : isEntryBelow d p glob names = isEntryBelow d q glob names := by
  have script : (p.under names).isScript = (q.under names).isScript := by
    unfold Path.isScript Path.extension?
    rw [Path.fileName?_under hp hn hne, Path.fileName?_under hq hn hne]
  rw [isEntryBelow, isEntryBelow, same.isFile hn, script]

/-! ### Collecting -/

open Ignore (Placed isTracked namesBelow)

/-- The names that lead to the entries below a root, unless the root is a path of tests. -/
def foundBelow (d : Disk) (root absolute : Path) (glob : String) : List (List String) :=
  ((namesBelow d (d.nodes.length + 1) (.atRoot d root absolute) root).filter (isEntryBelow d root glob)).mergeSort
    fun names names' => Path.le (root.under names) (root.under names')

private theorem proper_of_mem_foundBelow (hd : d.Regular) (h : names ∈ foundBelow d root absolute glob) :
    names ≠ [] ∧ ∀ name ∈ names, IsName name := by
  have listed := (List.mem_filter.1 (List.mem_mergeSort.1 h)).1
  exact ⟨Ignore.ne_nil_of_mem_namesBelow listed, Ignore.isName_of_mem_namesBelow hd listed⟩

theorem collectEntries_eq (hd : d.Regular) (h : Placed d root absolute) : collectEntries d root glob =
    .ok (if root.isTest then [] else (foundBelow d root absolute glob).map root.under) := by
  have nonempty := Disk.text_ne_empty_of_isDirectory h.directory
  have root_no_entry : ¬ isProjectEntry d root glob root = true := fun entry => by
    simp only [isProjectEntry, Bool.and_eq_true] at entry
    exact Disk.ne_of_isFile_of_isDirectory entry.1.1.1 h.directory BEq.rfl
  have passed : (Ignore.walk d root).entries.filter (isProjectEntry d root glob) =
      ((namesBelow d (d.nodes.length + 1) (.atRoot d root absolute) root).filter fun names =>
        !root.isTest && isEntryBelow d root glob names).map root.under := by
    rw [h.walk_eq, Ignore.entriesBelow_eq]
    dsimp only
    rw [List.filter_cons_of_neg root_no_entry, List.filter_map]
    refine congrArg _ (List.filter_congr fun names listed => ?_)
    exact isProjectEntry_under nonempty (Ignore.isName_of_mem_namesBelow hd listed) (Ignore.ne_nil_of_mem_namesBelow listed)
  have sorted_eq (ls : List (List String)) :
      (ls.mergeSort fun names names' => Path.le (root.under names) (root.under names')).map root.under =
        (ls.map root.under).mergeSort Path.le := List.map_mergeSort fun _ _ _ _ => rfl
  refine collectEntries_eq_ok.2 ⟨by rw [h.walk_eq]; exact h.faultless, ?_⟩
  rw [passed]
  cases root.isTest with
  | true => simp
  | false =>
    simp only [Bool.not_false, Bool.true_and, Bool.false_eq_true, if_false]
    exact (sorted_eq _).symm

private theorem foundBelow_moved (hd : d.Regular) (same : d.SameTree p q) (hp : Placed d p absolute)
    (hq : Placed d q other)
    (tracked : isTracked d p absolute = isTracked d q other) : foundBelow d p absolute glob = foundBelow d q other glob := by
  have nonempty := Disk.text_ne_empty_of_isDirectory hp.directory
  have nonempty' := Disk.text_ne_empty_of_isDirectory hq.directory
  have listed_eq : namesBelow d (d.nodes.length + 1) (.along d p absolute []) (p.under []) =
      namesBelow d (d.nodes.length + 1) (.along d q other []) (q.under []) :=
    Ignore.namesBelow_moved hd same hp hq tracked (by simp) (by simp) List.mem_cons_self
  have listed_eq : namesBelow d (d.nodes.length + 1) (.atRoot d p absolute) p =
      namesBelow d (d.nodes.length + 1) (.atRoot d q other) q := listed_eq
  have proper {names : List String} (h : names ∈ namesBelow d (d.nodes.length + 1) (.atRoot d q other) q) :
      ∀ name ∈ names, IsName name := Ignore.isName_of_mem_namesBelow hd h
  unfold foundBelow
  rw [listed_eq, List.filter_congr fun names h =>
    isEntryBelow_moved same nonempty nonempty' (proper h) (Ignore.ne_nil_of_mem_namesBelow h)]
  have sorted_eq := List.map_mergeSort (f := id) (l := (namesBelow d (d.nodes.length + 1) (.atRoot d q other) q).filter
      (isEntryBelow d q glob)) (r := fun names names' => Path.le (p.under names) (p.under names'))
    (s := fun names names' => Path.le (q.under names) (q.under names')) fun names h names' h' =>
      Path.le_under nonempty nonempty' (proper (List.mem_filter.1 h).1) (proper (List.mem_filter.1 h').1)
  rwa [List.map_id, List.map_id] at sorted_eq

/-- The entries below a root that is no path of tests do not depend on where the tree lies, and below one that is there are
none. So what is collected, seen from the roots, is the same unless just one of them is a path of tests. -/
theorem collectEntries_moved (hd : d.Regular) (same : d.SameTree p q) (hp : Placed d p absolute) (hq : Placed d q other)
    (tracked : isTracked d p absolute = isTracked d q other) (glob : String) :
    ∃ es fs, collectEntries d p glob = .ok es ∧ collectEntries d q glob = .ok fs ∧
      (p.isTest = true → es = []) ∧ (q.isTest = true → fs = []) ∧
      (es.map (·.stripPrefix? p) = fs.map (·.stripPrefix? q) ↔ p.isTest = q.isTest ∨ es = [] ∧ fs = []) := by
  have nonempty := Disk.text_ne_empty_of_isDirectory hp.directory
  have nonempty' := Disk.text_ne_empty_of_isDirectory hq.directory
  have seen {root : Path} (hr : root.text ≠ "") : ((foundBelow d q other glob).map root.under).map (·.stripPrefix? root) =
      (foundBelow d q other glob).map fun names => some ⟨String.ofList (joinPieces (names.map String.toList))⟩ := by
    rw [List.map_map]
    refine List.map_congr_left fun names h => ?_
    obtain ⟨hne, hn⟩ := proper_of_mem_foundBelow hd h
    exact Path.stripPrefix?_under hr hn hne
  refine ⟨_, _, collectEntries_eq hd hp, collectEntries_eq hd hq, fun test => if_pos test, fun test => if_pos test, ?_⟩
  rw [foundBelow_moved hd same hp hq tracked]
  cases p.isTest <;> cases q.isTest
  case false.false => exact iff_of_true ((seen nonempty).trans (seen nonempty').symm) (.inl rfl)
  all_goals simp

/-! ### A tree in two places -/

/-- A disk with the same tree in two places. -/
def twins : Disk where
  workingDirectory := []
  nodes := [(["home"], .directory 0), (["home", "site"], .directory 0), (["home", "site", "src"], .directory 0),
    (["home", "site", "src", "a.js"], .file "".toUTF8 0), (["my.test.app"], .directory 1),
    (["my.test.app", "src"], .directory 1), (["my.test.app", "src", "a.js"], .file "".toUTF8 1)]

/-- One of the places. -/
def twinSite : Path := pathOf ["home", "site"]

/-- The other one, which is spelled as a path of tests. -/
def testTwin : Path := pathOf ["my.test.app"]

private theorem regular_twins : twins.Regular where
  grounded := nofun
  named := by decide
  distinct := by decide
  anchored := Disk.anchored_of_root rfl

private theorem sameTree_twins : twins.SameTree twinSite testTwin := by
  have unlinked : twins.Unlinked := Disk.unlinked_of_nodes (by simp [twins])
  have tidy : ∀ entry ∈ twins.nodes, twins.Standing entry.1 := by decide
  have forth : twins.Copies ["home", "site"] ["my.test.app"] := by decide
  have back : twins.Copies ["my.test.app"] ["home", "site"] := by decide
  exact forth.sameTree regular_twins unlinked tidy back (by simp) (by simp) (by decide) (by decide)

/-- There are no rules and no repositories above the places. -/
private theorem placed_twins : Placed twins twinSite twinSite ∧ Placed twins testTwin testTwin ∧
    isTracked twins twinSite twinSite = isTracked twins testTwin testTwin := by
  have walkable : Ignore.Walkable twins twinSite twinSite :=
    ⟨by decide, by decide, Path.eq_some_iff.2 (by decide)⟩
  have walkable' : Ignore.Walkable twins testTwin testTwin :=
    ⟨by decide, by decide, Path.eq_some_iff.2 (by decide)⟩
  exact ⟨.of_bare walkable (by decide) (by decide +kernel), .of_bare walkable' (by decide) (by decide +kernel),
    by decide +kernel⟩

private theorem foundBelow_twinSite : foundBelow twins twinSite twinSite defaultEntryGlob = [["src", "a.js"]] := by
  have names : Ignore.sortedNames twins twinSite = ["src"] :=
    Ignore.sortedNames_of_sorted (by decide) (by decide)
  have names' : Ignore.sortedNames twins (twinSite.join ⟨"src"⟩) = ["a.js"] :=
    Ignore.sortedNames_of_sorted (by decide) (by decide)
  have below : namesBelow twins (6 + 1) { Ignore.Scope.atRoot twins twinSite twinSite with
      inner := [Ignore.Level.of twins twinSite] } (twinSite.join ⟨"src"⟩) = [["a.js"]] := by
    rw [namesBelow, names', List.flatMap_singleton]
    dsimp only
    rw [if_neg (by decide +kernel), if_neg (by decide +kernel)]
  have listed : namesBelow twins (7 + 1) (.atRoot twins twinSite twinSite) twinSite = [["src"], ["src", "a.js"]] := by
    rw [namesBelow, names, List.flatMap_singleton]
    dsimp only
    rw [if_neg (by decide +kernel), if_pos (by decide +kernel)]
    exact congrArg (fun below : List (List String) => ["src"] :: below.map ("src" :: ·)) below
  have passed : (namesBelow twins (twins.nodes.length + 1) (.atRoot twins twinSite twinSite) twinSite).filter
      (isEntryBelow twins twinSite defaultEntryGlob) = [["src", "a.js"]] := by
    rw [show twins.nodes.length = 7 from rfl, listed, List.filter_cons_of_neg (by decide +kernel),
      List.filter_cons_of_pos (by decide +kernel), List.filter_nil]
  rw [foundBelow, passed, List.mergeSort_singleton]

theorem collectEntries_moved_twins : twins.SameTree twinSite testTwin ∧
    ∃ es fs, collectEntries twins twinSite defaultEntryGlob = .ok es ∧
      collectEntries twins testTwin defaultEntryGlob = .ok fs ∧
      (es.map (·.stripPrefix? twinSite) = fs.map (·.stripPrefix? testTwin) ↔
        twinSite.isTest = testTwin.isTest ∨ es = [] ∧ fs = []) := by
  obtain ⟨placed, placed', tracked⟩ := placed_twins
  obtain ⟨es, fs, found, found', -, -, same_iff⟩ := collectEntries_moved regular_twins sameTree_twins placed placed' tracked
    defaultEntryGlob
  exact ⟨sameTree_twins, es, fs, found, found', same_iff⟩

/-- The script of the tree is an entry in one of the places only. -/
theorem collectEntries_by_place : twins.SameTree twinSite testTwin ∧ Placed twins twinSite twinSite ∧
    Placed twins testTwin testTwin ∧ isTracked twins twinSite twinSite = isTracked twins testTwin testTwin ∧
    collectEntries twins twinSite defaultEntryGlob = .ok [twinSite.under ["src", "a.js"]] ∧
    collectEntries twins testTwin defaultEntryGlob = .ok [] := by
  obtain ⟨placed, placed', tracked⟩ := placed_twins
  refine ⟨sameTree_twins, placed, placed', tracked, ?_, ?_⟩
  · rw [collectEntries_eq regular_twins placed, if_neg (by decide), foundBelow_twinSite]
    rfl
  · rw [collectEntries_eq regular_twins placed', if_pos (by decide)]

end ScriptBundler
