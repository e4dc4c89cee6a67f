import Mathlib.Data.List.TakeWhile
import ScriptBundler.Proofs.Disk.Copy
import ScriptBundler.Proofs.Ignore.Below
import ScriptBundler.Proofs.Ignore.Seen

/-!
# Walks over the same tree in two places

What the directories of a walk say of an entry is told from their rules and the names that lead to it (`view`). So where two
directories hold the same tree, and nothing that stands above them says anything of it (`Placed.silent`), the walks from both
list entries by the same names (`namesBelow_moved`). Whether one of the directories above starts a repository makes a
difference, though: without a repository only `.ignore` files count.
-/

namespace ScriptBundler

open Disk (IsName)

variable {d : Disk} {p q root absolute : Path} {s : Ignore.Scope} {depth : Nat} {front names : List String} {isDirectory : Bool}

namespace Ignore

/-! ### Verdicts -/

private theorem Verdict.orElse_silent (v : Verdict) : v.orElse .silent = v := by
  cases v <;> rfl

private theorem Verdict.first_append (vs ws : List Verdict) :
    Verdict.first (vs ++ ws) = (Verdict.first vs).orElse (.first ws) := by
  induction vs with
  | nil => rfl
  | cons v vs ih =>
    show v.orElse (Verdict.first (vs ++ ws)) = (v.orElse (Verdict.first vs)).orElse (Verdict.first ws)
    rw [ih]
    cases v <;> rfl

private theorem Verdict.first_cons_eq_silent {v : Verdict} {vs : List Verdict} :
    Verdict.first (v :: vs) = .silent ↔ v = .silent ∧ Verdict.first vs = .silent := by
  show v.orElse (Verdict.first vs) = .silent ↔ _
  cases v <;> simp [Verdict.orElse]

private theorem verdictOf_append {rules : Level → List Rule} {levels levels' : List (Level × List Char)}
    (silent : verdictOf rules isDirectory levels' = .silent) :
    verdictOf rules isDirectory (levels ++ levels') = verdictOf rules isDirectory levels := by
  unfold verdictOf at silent ⊢
  rw [List.map_append, Verdict.first_append, silent, Verdict.orElse_silent]

/-- The directories whose rules for repositories count: those in a repository of their own, or all if there is one above
them. -/
def inside (isAbove : Bool) (levels : List (Level × List Char)) : List (Level × List Char) :=
  if levels.any (·.1.isRepository) then Scope.inRepository levels else if isAbove then levels else []

private theorem inRepository_eq (levels : List (Level × List Char)) : Scope.inRepository levels =
    if levels.any (·.1.isRepository) then levels.takeWhile (fun level => !level.1.isRepository) ++
      (levels.dropWhile fun level => !level.1.isRepository).take 1 else [] := by
  have none_iff : levels.dropWhile (fun level => !level.1.isRepository) = [] ↔ ¬ levels.any (·.1.isRepository) = true := by
    rw [List.dropWhile_eq_nil_iff]
    simp
  unfold Scope.inRepository
  rw [List.span_eq_takeWhile_dropWhile]
  cases e : levels.dropWhile (fun level => !level.1.isRepository) with
  | nil => rw [if_neg (none_iff.1 e)]
  | cons top rest =>
    rw [if_pos (not_not.1 fun none => by simp [none_iff.2 none] at e)]
    rfl

private theorem inRepository_cons (level : Level × List Char) (levels : List (Level × List Char)) :
    Scope.inRepository (level :: levels) = if level.1.isRepository then [level]
      else if levels.any (·.1.isRepository) then level :: Scope.inRepository levels else [] := by
  rw [inRepository_eq, inRepository_eq, List.takeWhile_cons, List.dropWhile_cons, List.any_cons]
  by_cases top : level.1.isRepository = true
  · simp [top]
  · by_cases near : levels.any (·.1.isRepository) = true <;> simp [top, near]

private theorem inRepository_of_none {levels : List (Level × List Char)} (h : ¬ levels.any (·.1.isRepository) = true) :
    Scope.inRepository levels = [] := by
  cases levels with
  | nil => rfl
  | cons level levels =>
    rw [List.any_cons, Bool.or_eq_true, not_or] at h
    rw [inRepository_cons, if_neg h.1, if_neg h.2]

private theorem inRepository_sublist {levels : List (Level × List Char)} :
    (Scope.inRepository levels).Sublist levels := by
  induction levels with
  | nil => exact .slnil
  | cons level levels ih =>
    rw [inRepository_cons]
    split
    · exact (List.nil_sublist levels).cons_cons level
    · split
      · exact ih.cons_cons level
      · exact List.nil_sublist _

private theorem inRepository_append (levels levels' : List (Level × List Char)) :
    Scope.inRepository (levels ++ levels') = if levels.any (·.1.isRepository) then Scope.inRepository levels
    else if levels'.any (·.1.isRepository) then levels ++ Scope.inRepository levels' else [] := by
  induction levels with
  | nil =>
    by_cases far : levels'.any (·.1.isRepository) = true
    · simp [far]
    · rw [List.nil_append, inRepository_of_none far]
      simp [far]
  | cons level levels ih =>
    rw [List.cons_append, inRepository_cons, inRepository_cons, List.any_append, ih, List.any_cons]
    by_cases top : level.1.isRepository = true
    · simp [top]
    · by_cases near : levels.any (·.1.isRepository) = true
      · simp [top, near]
      · by_cases far : levels'.any (·.1.isRepository) = true
        · simp [top, near, far]
        · simp [top, near, far]

/-- If the directories above say nothing, those below the root decide. -/
private theorem verdict_of_silent (silent : ({ s with inner := [] } : Scope).verdict p isDirectory = .silent) :
    s.verdict p isDirectory =
      let levels := s.inner.map (·, withoutHere p.text.toList)
      .first [verdictOf (·.ignored) isDirectory levels,
        verdictOf (·.gitIgnored) isDirectory (inside (s.outer.any (·.isRepository)) levels),
        verdictOf (·.excluded) isDirectory (inside (s.outer.any (·.isRepository)) levels)] := by
  unfold Scope.verdict Scope.levels at silent
  rw [List.map_nil, List.nil_append, Verdict.first_cons_eq_silent, Verdict.first_cons_eq_silent,
    Verdict.first_cons_eq_silent] at silent
  obtain ⟨ignored, gitIgnored, excluded, -⟩ := silent
  have above : (s.outer.map (·, s.absolutePath (withoutHere p.text.toList))).any (·.1.isRepository) =
      s.outer.any (·.isRepository) := by
    rw [List.any_map]
    rfl
  have inside_eq {rules : Level → List Rule} (silent : verdictOf rules isDirectory
        (Scope.inRepository (s.outer.map (·, s.absolutePath (withoutHere p.text.toList)))) = .silent) :
      verdictOf rules isDirectory (Scope.inRepository (s.levels (withoutHere p.text.toList))) =
        verdictOf rules isDirectory
          (inside (s.outer.any (·.isRepository)) (s.inner.map (·, withoutHere p.text.toList))) := by
    rw [Scope.levels, inRepository_append, inside, above]
    split
    · rfl
    · split
      · exact verdictOf_append silent
      · rfl
  have ignored : verdictOf (·.ignored) isDirectory (s.outer.map (·, s.absolutePath (withoutHere p.text.toList))) = .silent :=
    ignored
  unfold Scope.verdict
  dsimp only
  rw [inside_eq gitIgnored, inside_eq excluded, Scope.levels, verdictOf_append ignored]

/-! ### What a directory sees -/

/-- The rules of a directory, and the spelling by which it sees a path. -/
def view (level : Level × List Char) : Level × List Char := ({ level.1 with directory := [] }, level.1.seen level.2)

/-- What rules say of a path as it is seen. -/
def verdictSeen (rules : Level → List Rule) (isDirectory : Bool) (views : List (Level × List Char)) : Verdict :=
  .first <| views.map fun (l, seen) => verdict (rules l) (seen.flatMap String.utf8EncodeChar) isDirectory

private theorem verdictOf_eq_seen {rules : Level → List Rule}
    (hr : ∀ l : Level, rules { l with directory := [] } = rules l) (levels : List (Level × List Char)) :
    verdictOf rules isDirectory levels = verdictSeen rules isDirectory (levels.map view) := by
  unfold verdictOf verdictSeen
  rw [List.map_map]
  refine congrArg _ (List.map_congr_left fun level _ => ?_)
  show _ = verdict (rules { level.1 with directory := [] }) _ _
  rw [hr]

private theorem map_view_inside (isAbove : Bool) (levels : List (Level × List Char)) :
    (inside isAbove levels).map view = inside isAbove (levels.map view) := by
  have any_eq (levels : List (Level × List Char)) :
      (levels.map view).any (·.1.isRepository) = levels.any (·.1.isRepository) := by
    rw [List.any_map]
    rfl
  have inRepository_eq : (Scope.inRepository levels).map view = Scope.inRepository (levels.map view) := by
    induction levels with
    | nil => rfl
    | cons level levels ih =>
      rw [List.map_cons, inRepository_cons, inRepository_cons, any_eq, ← ih]
      show _ = if level.1.isRepository then _ else _
      split
      · rfl
      · split <;> rfl
  unfold inside
  rw [any_eq]
  split
  · exact inRepository_eq
  · split <;> rfl

/-! ### The same tree -/

private theorem isOwnDirectory_eq_sight : isOwnDirectory d p = match d.sight p ⟨false, false⟩ with
    | some (.directory _) => true
    | _ => false := by
  unfold isOwnDirectory Disk.sight
  rcases d.stat p ⟨false, false⟩ with e | ⟨_ | _ | _⟩ <;> rfl

private theorem ruleFile_eq : ruleFile d p = match (d.readBytes p).toOption with
    | some bytes => .ofBytes bytes.toList
    | none => {} := by
  unfold ruleFile
  rcases d.readBytes p with e | bytes <;> rfl

private theorem firstLine?_eq : firstLine? d p = (d.readBytes p).toOption.bind fun bytes =>
    (lines [] bytes.toList).head?.map fun l => (String.fromUTF8? ⟨l.toArray⟩).map String.toList := by
  unfold firstLine?
  rcases d.readBytes p with e | bytes <;> rfl

/-- What a repository excludes is a file below it. -/
private theorem join_exclude (hp : p.text ≠ "") : p.join ⟨"info/exclude"⟩ = p.under ["info", "exclude"] := by
  have name : IsName "info" := by decide
  have spelled : (p.join ⟨"info/exclude"⟩).text.toList = (p.under ["info", "exclude"]).text.toList := by
    rw [Path.toList_join_of_relative hp (by decide), Path.toList_under hp (by decide) (List.cons_ne_nil _ _)]
    rfl
  exact congrArg Path.mk (String.toList_inj.1 spelled)

end Ignore

namespace Disk.SameTree

open Ignore (Level)

private theorem sortedNames (h : d.SameTree p q) (hn : ∀ name ∈ names, IsName name) :
    Ignore.sortedNames d (p.under names) = Ignore.sortedNames d (q.under names) := by
  have eq_listing (p : Path) : Ignore.sortedNames d p = (d.listing p).mergeSort fun a b => a ≤ b := by
    unfold Ignore.sortedNames Disk.listing
    rcases d.list p with e | names
    · exact List.mergeSort_nil.symm
    · rfl
  rw [eq_listing, eq_listing, mergeSort_eq_of_perm (h.listing names hn)]

theorem isFile (h : d.SameTree p q) (hn : ∀ name ∈ names, IsName name) :
    d.isFile (p.under names) = d.isFile (q.under names) := by
  rw [isFile_eq_sight, isFile_eq_sight, h.sight names hn]

private theorem «exists» (h : d.SameTree p q) (hn : ∀ name ∈ names, IsName name) :
    d.exists (p.under names) = d.exists (q.under names) := by
  rw [exists_eq_sight, exists_eq_sight, h.sight names hn]

private theorem isOwnDirectory (h : d.SameTree p q) (hn : ∀ name ∈ names, IsName name) :
    Ignore.isOwnDirectory d (p.under names) = Ignore.isOwnDirectory d (q.under names) := by
  rw [Ignore.isOwnDirectory_eq_sight, Ignore.isOwnDirectory_eq_sight, h.sight names hn]

private theorem readBytes (h : d.SameTree p q) (hn : ∀ name ∈ names, IsName name) :
    (d.readBytes (p.under names)).toOption = (d.readBytes (q.under names)).toOption := by
  rw [toOption_readBytes_eq_sight, toOption_readBytes_eq_sight, h.sight names hn]

private theorem ruleFile (h : d.SameTree p q) (hn : ∀ name ∈ names, IsName name) :
    Ignore.ruleFile d (p.under names) = Ignore.ruleFile d (q.under names) := by
  rw [Ignore.ruleFile_eq, Ignore.ruleFile_eq, h.readBytes hn]

private theorem firstLine? (h : d.SameTree p q) (hn : ∀ name ∈ names, IsName name) :
    Ignore.firstLine? d (p.under names) = Ignore.firstLine? d (q.under names) := by
  rw [Ignore.firstLine?_eq, Ignore.firstLine?_eq, h.readBytes hn]

private theorem exclusions (h : d.SameTree p q) (hp : p.text ≠ "") (hq : q.text ≠ "")
    (hn : ∀ name ∈ names, IsName name) : Ignore.exclusions d (p.under names) = Ignore.exclusions d (q.under names) := by
  have below {more : List String} (hm : ∀ name ∈ more, IsName name) : ∀ name ∈ names ++ more, IsName name :=
    List.forall_mem_append.2 ⟨hn, hm⟩
  have exclude {r : Path} (hr : r.text ≠ "") :
      (r.under (names ++ [".git"])).join ⟨"info/exclude"⟩ = r.under (names ++ [".git", "info", "exclude"]) := by
    rw [Ignore.join_exclude (Path.text_under_ne hr (below (by decide))), ← Path.under_append, List.append_assoc]
    rfl
  unfold Ignore.exclusions
  dsimp only
  rw [p.under_join names ".git", q.under_join names ".git", exclude hp, exclude hq, h.isFile (below (by decide)),
    h.firstLine? (below (by decide)), h.ruleFile (below (by decide))]

/-- Up to its spelling, a directory brings the same in both places. -/
private theorem level (h : d.SameTree p q) (hp : p.text ≠ "") (hq : q.text ≠ "") (hn : ∀ name ∈ names, IsName name) :
    { Level.of d (p.under names) with directory := [] } = { Level.of d (q.under names) with directory := [] } := by
  have below {more : List String} (hm : ∀ name ∈ more, IsName name) : ∀ name ∈ names ++ more, IsName name :=
    List.forall_mem_append.2 ⟨hn, hm⟩
  unfold Level.of
  dsimp only
  simp only [Path.under_join]
  rw [h.ruleFile (below (by decide)), h.ruleFile (below (by decide)),
    h.exclusions hp hq hn, h.exists (below (by decide)), h.exists (below (by decide))]

end Disk.SameTree

namespace Ignore

open ScriptBundler.Path (joinPieces)

/-! ### Walks from roots -/

/-- A root from which a walk starts, with one dot in front at most. What stands above it is not faulty, and says nothing of
what stands below. -/
structure Placed (d : Disk) (root absolute : Path) : Prop extends Walkable d root absolute where
  once : HereOnce root
  faultless : (Scope.atRoot d root absolute).outer.any (·.isFaulty) = false
  silent : ∀ names, (∀ name ∈ names, IsName name) → names ≠ [] → ∀ isDirectory,
    (Scope.atRoot d root absolute).verdict (root.under names) isDirectory = .silent

/-- Directories without rules say nothing. -/
private theorem verdictOf_silent {rules : Level → List Rule} {levels : List (Level × List Char)}
    (h : ∀ level ∈ levels, rules level.1 = []) : verdictOf rules isDirectory levels = .silent := by
  unfold verdictOf
  induction levels with
  | nil => rfl
  | cons level levels ih =>
    rw [List.forall_mem_cons] at h
    rw [List.map_cons, Verdict.first_cons_eq_silent]
    refine ⟨?_, ih h.2⟩
    dsimp only
    rw [h.1]
    rfl

/-- Whether a directory has no rules at all. -/
def Level.isBare (l : Level) : Bool := l.ignored.isEmpty && l.gitIgnored.isEmpty && l.excluded.isEmpty && !l.isFaulty

/-- So it is if there are no rules above the root. -/
theorem Placed.of_bare (h : Walkable d root absolute) (once : HereOnce root)
    (bare : ∀ l ∈ (Scope.atRoot d root absolute).outer, l.isBare = true) : Placed d root absolute := by
  simp only [Level.isBare, Bool.and_eq_true, List.isEmpty_iff, Bool.not_eq_true'] at bare
  refine { h with once, faultless := ?_, silent := fun names _ _ isDirectory => ?_ }
  · exact List.any_eq_false.2 fun l hl => by simp [(bare l hl).2]
  have above (cs : List Char) : ∀ level ∈ (Scope.atRoot d root absolute).levels cs,
      level.1 ∈ (Scope.atRoot d root absolute).outer := by
    rintro level hlevel
    obtain ⟨l, hl, rfl⟩ := List.mem_map.1 (show level ∈ (Scope.atRoot d root absolute).outer.map _ from hlevel)
    exact hl
  unfold Scope.verdict
  dsimp only
  rw [verdictOf_silent fun level hl => (bare _ (above _ level hl)).1.1.1,
    verdictOf_silent fun level hl => (bare _ (above _ level (inRepository_sublist.mem hl))).1.1.2,
    verdictOf_silent fun level hl => (bare _ (above _ level (inRepository_sublist.mem hl))).1.2]
  rfl

/-- Whether a repository starts at a root or above it. -/
def isTracked (d : Disk) (root absolute : Path) : Bool :=
  (Level.of d root).isRepository || (Scope.atRoot d root absolute).outer.any (·.isRepository)

/-- The scope of a walk from a root that has come through directories, the last one first. -/
def Scope.along (d : Disk) (root absolute : Path) (fronts : List (List String)) : Scope :=
  { Scope.atRoot d root absolute with inner := fronts.map fun front => Level.of d (root.under front) }

/-- What the directories of a walk see of an entry. -/
def views (d : Disk) (root : Path) (fronts : List (List String)) (names : List String) : List (Level × List Char) :=
  fronts.map fun front =>
    ({ Level.of d (root.under front) with directory := [] }, joinPieces ((names.drop front.length).map String.toList))

/-- What is said of an entry is told from what is seen of it, and from whether there is a repository. -/
private theorem verdict_along {fronts : List (List String)} (h : Placed d root absolute)
    (hn : ∀ name ∈ names, IsName name) (hf : ∀ front ∈ fronts, front <+: names ∧ front ≠ names) (top : [] ∈ fronts) :
    (Scope.along d root absolute fronts).verdict (root.under names) isDirectory =
      .first [verdictSeen (·.ignored) isDirectory (views d root fronts names),
        verdictSeen (·.gitIgnored) isDirectory (inside (isTracked d root absolute) (views d root fronts names)),
        verdictSeen (·.excluded) isDirectory (inside (isTracked d root absolute) (views d root fronts names))] := by
  have nonempty := Disk.text_ne_empty_of_isDirectory h.directory
  have seen : (((Scope.along d root absolute fronts).inner.map (·, withoutHere (root.under names).text.toList)).map view) =
      views d root fronts names := by
    rw [Scope.along, List.map_map, List.map_map]
    refine List.map_congr_left fun front hfront => ?_
    obtain ⟨⟨rest, rfl⟩, hne⟩ := hf front hfront
    rw [List.forall_mem_append] at hn
    simp only [Function.comp_apply, view]
    rw [root.under_append, (Level.seen_under (h.once.under nonempty hn.1) (Path.text_under_ne nonempty hn.1) hn.2
      fun e => hne (by rw [e, List.append_nil])), List.drop_left]
  have tracked : inside ((Scope.along d root absolute fronts).outer.any (·.isRepository)) (views d root fronts names) =
      inside (isTracked d root absolute) (views d root fronts names) := by
    unfold inside
    by_cases near : (views d root fronts names).any (·.1.isRepository) = true
    · rw [if_pos near, if_pos near]
    · have start : ¬ (Level.of d root).isRepository = true := fun starts =>
        near (List.any_eq_true.2 ⟨_, List.mem_map.2 ⟨[], top, rfl⟩, starts⟩)
      rw [if_neg near, if_neg near, isTracked, Bool.eq_false_iff.2 start, Bool.false_or]
      rfl
  have silent := h.silent names hn (hf [] top).2.symm isDirectory
  rw [verdict_of_silent (s := Scope.along d root absolute fronts) silent]
  dsimp only
  rw [verdictOf_eq_seen fun _ => rfl, verdictOf_eq_seen fun _ => rfl, verdictOf_eq_seen fun _ => rfl, map_view_inside, seen,
    tracked]

variable {other : Path} {fronts : List (List String)}

private theorem verdict_moved (same : d.SameTree p q) (hp : Placed d p absolute) (hq : Placed d q other)
    (tracked : isTracked d p absolute = isTracked d q other) (hn : ∀ name ∈ names, IsName name)
    (hf : ∀ front ∈ fronts, front <+: names ∧ front ≠ names) (top : [] ∈ fronts) (isDirectory : Bool) :
    (Scope.along d p absolute fronts).verdict (p.under names) isDirectory =
      (Scope.along d q other fronts).verdict (q.under names) isDirectory := by
  have views_eq : views d p fronts names = views d q fronts names := by
    refine List.map_congr_left fun front hfront => ?_
    have proper : ∀ name ∈ front, IsName name := fun name hname => hn name ((hf front hfront).1.mem hname)
    rw [same.level (Disk.text_ne_empty_of_isDirectory hp.directory) (Disk.text_ne_empty_of_isDirectory hq.directory) proper]
  rw [verdict_along hp hn hf top, verdict_along hq hn hf top, views_eq, tracked]

private theorem namesBelow_along : namesBelow d (depth + 1) (.along d root absolute fronts) (root.under front) =
    (sortedNames d (root.under front)).flatMap fun name =>
      let entry := root.under (front ++ [name])
      let isDirectory := isOwnDirectory d entry
      if (Scope.along d root absolute (front :: fronts)).verdict entry isDirectory = .drops then []
      else [name] ::
        if isDirectory then (namesBelow d depth (.along d root absolute (front :: fronts)) entry).map (name :: ·) else [] := by
  rw [namesBelow]
  refine List.flatMap_congr fun name _ => ?_
  dsimp only
  rw [Path.under_join]
  rfl

/-- Walks over the same tree list the same below each directory. -/
theorem namesBelow_moved (hd : d.Regular) (same : d.SameTree p q) (hp : Placed d p absolute) (hq : Placed d q other)
    (tracked : isTracked d p absolute = isTracked d q other)
    (hn : ∀ name ∈ front, IsName name) (hf : ∀ f ∈ fronts, f <+: front) (top : [] ∈ front :: fronts) :
    namesBelow d depth (.along d p absolute fronts) (p.under front) =
      namesBelow d depth (.along d q other fronts) (q.under front) := by
  induction depth generalizing front fronts with
  | zero => rfl
  | succ depth ih =>
    rw [namesBelow_along, namesBelow_along, same.sortedNames hn]
    refine List.flatMap_congr fun name listed => ?_
    have hn' : ∀ n ∈ front ++ [name], IsName n :=
      List.forall_mem_append.2 ⟨hn, by simpa using isName_of_mem_sortedNames hd listed⟩
    have above : ∀ f ∈ front :: fronts, f <+: front := List.forall_mem_cons.2 ⟨List.prefix_rfl, hf⟩
    have above' : ∀ f ∈ front :: fronts, f <+: front ++ [name] ∧ f ≠ front ++ [name] := fun f hmem =>
      ⟨(above f hmem).trans (List.prefix_append _ _), fun e => absurd (e ▸ above f hmem).length_le (by simp)⟩
    have said := verdict_moved same hp hq tracked hn' above' top (isOwnDirectory d (q.under (front ++ [name])))
    dsimp only
    rw [same.isOwnDirectory hn']
    rw [said, ih hn' (fun f hmem => (above' f hmem).1) (List.mem_cons_of_mem _ top)]

end Ignore

end ScriptBundler
