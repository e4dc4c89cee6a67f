import ScriptBundler.Proofs.Bundle.Refresh
import ScriptBundler.Proofs.Bundle.Twins
import ScriptBundler.Proofs.Glob.Rooted
import ScriptBundler.Proofs.Project.Collected
import ScriptBundler.Proofs.Trace.Copied

/-!
# Bundles seen from the root

Patterns are seen from the root by writing the path of the root in front of them. As long as this path has no pattern
syntax, the bundle does not depend on where the tree lies (`Settings.bundleAt_alike`). Otherwise the root is taken for a
part of the pattern.
-/

namespace ScriptBundler

open Disk (pathOf IsName)
open ScriptBundler.Path (Twin)
open Glob (Plain Spelled)

variable {d : Disk} {p q : Path} {k l : Location} {T : List String → Prop} {s : Settings}
  {aliases aliases' : AliasTable}

/-! ### Roots -/

/-- The path is that of a directory, without links and without pattern syntax, and does not go by the name of a script. -/
structure Disk.PlainRoot (d : Disk) (k : Location) : Prop where
  located : d.locate (pathOf k) = .ok k
  directory : d.isDirectory (pathOf k) = true
  plain : Plain (pathOf k)
  unscripted : (pathOf k).isScript = false

private theorem Disk.PlainRoot.standing (h : d.PlainRoot k) (hd : d.Regular) : d.Standing k := by
  obtain ⟨location, time, located, there⟩ := Disk.exists_of_isDirectory h.directory
  cases h.located.symm.trans located
  exact .of_locate (hd.anchored.solid_above h.located) (by simp [there]) (Disk.isName_of_locate hd.grounded h.located) located

/-- Seen from the roots, two bundles have the same entries and the same destination. -/
structure Bundle.SameBelow (p q : Path) (b c : Bundle) : Prop where
  files : ∃ rests : List Path, b.files.map (·.stripPrefix? p) = rests.map some ∧
    c.files.map (·.stripPrefix? q) = rests.map some
  destination : ∃ rest : Option Path, b.destination.map (·.stripPrefix? p) = rest.map some ∧
    c.destination.map (·.stripPrefix? q) = rest.map some

private theorem Bundle.Related.sameBelow {b c : Bundle} (related : b.Related (Twin p q T) c) (h : d.Alike p q T)
    (hp : p.text ≠ "") (hq : q.text ≠ "") : b.SameBelow p q c where
  files := by
    have files := related.files
    generalize b.files = xs, c.files = ys at files
    induction files with
    | nil => exact ⟨[], rfl, rfl⟩
    | cons hx _ ih =>
      obtain ⟨rest, left, left'⟩ := hx.exists_stripPrefix? h hp hq
      obtain ⟨rests, e, e'⟩ := ih
      exact ⟨rest :: rests, by rw [List.map_cons, left, e, List.map_cons], by rw [List.map_cons, left', e', List.map_cons]⟩
  destination := by
    have destination := related.destination
    generalize b.destination = x, c.destination = y at destination
    cases destination with
    | none => exact ⟨none, rfl, rfl⟩
    | some hx =>
      obtain ⟨rest, left, left'⟩ := hx.exists_stripPrefix? h hp hq
      exact ⟨some rest, congrArg some left, congrArg some left'⟩

/-! ### Workspaces -/

/-- Two workspaces on one disk, with memories of related files. -/
structure Workspace.Matched (d : Disk) (R : Path → Path → Prop) (w v : Workspace) : Prop where
  disk : w.disk = d
  disk' : v.disk = d
  imports : w.imports.Along d R v.imports

private theorem tracesRelated_of {R : Path → Path → Prop}
    (h : (Workspace.tracer p aliases).Along (Workspace.tracer q aliases') d R) :
    TracesRelated (Workspace.Matched d R) (fun _ _ => True) R (Workspace.collaborators p aliases).trace
      (Workspace.collaborators q aliases').trace := by
  rintro xs ys hxs w v ⟨disk, disk', imports⟩
  have traced := h.trace hxs _ _ imports
  have apply_eq (root : Path) (aliases : AliasTable) (ps : List Path) (w : Workspace) :
      (Workspace.collaborators root aliases).trace ps w = (((Workspace.tracer root aliases).trace w.disk ps w.imports).1,
        { w with imports := ((Workspace.tracer root aliases).trace w.disk ps w.imports).2 }) := rfl
  rw [apply_eq, apply_eq, disk, disk']
  exact ⟨traced.1.mono fun _ _ files => files.imp fun _ _ k => k.1, ⟨rfl, rfl, traced.2⟩⟩

/-! ### Options -/

/-- Where files say the same, they are the same options, or none. -/
private theorem Options.read_alike {f g : Path} (h : (d.readText f).toOption = (d.readText g).toOption) :
    (Options.read d f).Alike (fun _ _ => True) Eq (Options.read d g) := by
  refine (Attempted.Alike.of_toOption h).during.bind ?_
  rintro text _ rfl
  exact (Attempted.Alike.of_toOption rfl).during

namespace Settings

/-- What the option file says. -/
def writtenOptions (s : Settings) (d : Disk) (root : Path) : Attempted Options :=
  match s.optionFile.or (optionFile? d root) with
  | some file => Options.read d file
  | none => .ok {}

private theorem bundleOptions_eq (rooted : s.root = some p) : s.bundleOptions d = (s.writtenOptions d p).map fun o =>
    { common := anchored p (s.common.getD o.common), joiner := s.joiner.getD o.joiner } := by
  rw [bundleOptions, knownRoot, rooted, writtenOptions]
  simp only [bind, Except.bind]
  rcases s.optionFile.or (optionFile? d p) with _ | file
  · rfl
  · dsimp only
    cases Options.read d file <;> rfl

/-- The settings ask for nothing but what is at the end of one of the routes. -/
structure Within (s : Settings) (d : Disk) (root : Path) (T : List String → Prop) : Prop where
  patterns : ∀ pattern ∈ s.patterns, ∀ route, Spelled pattern route → T route
  optionFile : T ["oxibundle.json"]
  common : ∀ o text, s.writtenOptions d root = .ok o → s.common.getD o.common = .pattern text → T [text]

section

variable (h : d.Alike p q T)
include h

private theorem writtenOptions_alike (file : T ["oxibundle.json"]) :
    (s.writtenOptions d p).Alike (fun _ _ => True) Eq (s.writtenOptions d q) := by
  have named (p : Path) : p.join ⟨"oxibundle.json"⟩ = p.under ["oxibundle.json"] := rfl
  unfold writtenOptions
  cases s.optionFile with
  | some file => exact Options.read_alike rfl
  | none =>
    rw [Option.none_or, Option.none_or, optionFile?, optionFile?, named p, named q, h.isFile file]
    cases d.isFile (q.under ["oxibundle.json"]) with
    | true => exact Options.read_alike (h.readText file)
    | false => exact .ok rfl

/-- The destinations below two roots are twins. -/
private theorem destination_alike {xs ys : List Path} {common : CommonOption} (plain : Plain p) (plain' : Plain q)
    (hp : p.text ≠ "")
    (hq : q.text ≠ "") (hxs : List.Forall₂ (Twin p q T) xs ys) (named : ∀ text, common = .pattern text → T [text]) :
    Option.Rel (Twin p q T) (commonDestination? xs (anchored p common) d.exists)
      (commonDestination? ys (anchored q common) d.exists) := by
  refine commonDestination?_related hxs ?_
  cases common with
  | disabled | enabled => exact .none
  | pattern text =>
    have ht := named text rfl
    have relative : (⟨text⟩ : Path).isAbsolute = false := h.isRoute _ ht text List.mem_cons_self
    have there := h.exists ht
    refine .some ⟨?_, there, [text], ht, List.cons_ne_nil _ _, rfl, rfl⟩
    rintro _ _ ⟨route, hr, hne, rfl, rfl⟩
    obtain ⟨behind, hb, joined⟩ := (h.isRoute route hr).exists_join hne
    rw [joined p hp, joined q hq]
    exact Glob.pathMatches_anchor plain plain' hp hq hb relative

end

/-! ### Bundles -/

/-- The bundle of the settings as they take effect with a root. -/
def bundleAt (s : Settings) (d : Disk) (root : Path) : Attempted Bundle := do
  let t ← { s with root := some root }.settle d
  (t.bundle { disk := d }).1

/-- The settings as they take effect at a root. -/
def settledAt (s : Settings) (d : Disk) (root : Path) : Settings :=
  { s with root := some root, aliases := projectAliases d root }

private theorem entryPatterns_settledAt (some_patterns : s.patterns ≠ []) (d : Disk) (root : Path) :
    (s.settledAt d root).entryPatterns d = .ok (s.patterns.map fun pattern => (root.join ⟨pattern⟩).text) := by
  rw [entryPatterns, settledAt, knownRoot]
  simp only [bind, Except.bind]
  rw [if_neg (by simpa using some_patterns)]
  rfl

/-- Where two roots look alike, the settings make bundles of twins there, or none. -/
private theorem bundle_paired (hd : d.Regular) (hk : d.PlainRoot k) (hl : d.PlainRoot l)
    (h : d.Alike (pathOf k) (pathOf l) T) (some_patterns : s.patterns ≠ []) (within : s.Within d (pathOf k) T)
    (leads : Path.Twin.Leads d (pathOf k) (pathOf l) T (projectAliases d (pathOf k)) (projectAliases d (pathOf l))) :
    (s.settledAt d (pathOf k)).bundle.Paired (Workspace.Matched d (Twin (pathOf k) (pathOf l) T)) (fun _ _ => True)
      (Bundle.Related (Twin (pathOf k) (pathOf l) T)) (s.settledAt d (pathOf l)).bundle := by
  have hp := Disk.text_pathOf_ne k
  have hq := Disk.text_pathOf_ne l
  have matching : Path.Matching (Twin (pathOf k) (pathOf l) T) := fun _ _ _ _ => Twin.beq h hp hq
  refine Action.Paired.get.bind fun w v hs => ?_
  rw [hs.disk, hs.disk']
  refine .bind (R := fun p q => p = pathOf k ∧ q = pathOf l) (.lift (.ok ⟨rfl, rfl⟩)) ?_
  rintro _ _ ⟨rfl, rfl⟩
  rw [entryPatterns_settledAt some_patterns, entryPatterns_settledAt some_patterns, bundleOptions_eq rfl, bundleOptions_eq rfl]
  refine .bind (R := fun ps qs => ps = _ ∧ qs = _) (.lift (.ok ⟨rfl, rfl⟩)) ?_
  rintro _ _ ⟨rfl, rfl⟩
  refine .bind (R := fun o o' => ∃ common joiner, (o = ⟨anchored (pathOf k) common, joiner⟩ ∧
    o' = ⟨anchored (pathOf l) common, joiner⟩) ∧ ∀ text, common = .pattern text → T [text]) (.lift ?_) ?_
  · have written : (s.writtenOptions d (pathOf k)).Alike (fun _ _ => True)
        (fun o o' => o = o' ∧ s.writtenOptions d (pathOf k) = .ok o) (s.writtenOptions d (pathOf l)) :=
      (writtenOptions_alike h within.optionFile).mono_of_ok fun o o' ho _ same => ⟨same, ho⟩
    refine written.map ?_
    rintro o _ ⟨rfl, ho⟩
    exact ⟨_, _, ⟨rfl, rfl⟩, fun text => within.common o text ho⟩
  rintro _ _ ⟨common, joiner, ⟨rfl, rfl⟩, reached⟩
  refine Bundle.of_paired matching (tracesRelated_of (leads.along h hp hq hk.unscripted hl.unscripted)) ?_ ?_ ?_
  · rintro w v ⟨rfl, disk, -⟩
    show Glob.Agree _ (Glob.expand w.disk _) (Glob.expand v.disk _)
    rw [disk]
    exact Glob.expand_alike hd (hk.standing hd) (hl.standing hd) hk.plain hl.plain h within.patterns
  · cases common <;> rfl
  · rintro w v xs ys ⟨rfl, disk, -⟩ hxs
    show Option.Rel _ (commonDestination? xs _ w.disk.exists) (commonDestination? ys _ v.disk.exists)
    rw [disk]
    exact destination_alike h hk.plain hl.plain hp hq hxs reached

private theorem bundleAt_eq (located : d.locate (pathOf k) = .ok k) :
    s.bundleAt d (pathOf k) = ((s.settledAt d (pathOf k)).bundle { disk := d }).1 := by
  have root_eq : canonical d (pathOf k) = pathOf k := Disk.canonical_of_locate located
  rw [bundleAt, settle, findRoot]
  simp only [bind, Except.bind]
  rw [root_eq]
  rfl

/-- The settings have the same entries at both roots, and the same destination, as they are seen from there, or they have no
bundle at either of them. So it is where both roots are plain and look alike along all routes that the patterns spell. -/
theorem bundleAt_alike (hd : d.Regular) (hk : d.PlainRoot k) (hl : d.PlainRoot l) (h : d.Alike (pathOf k) (pathOf l) T)
    (some_patterns : s.patterns ≠ []) (within : s.Within d (pathOf k) T)
    (leads : Path.Twin.Leads d (pathOf k) (pathOf l) T (projectAliases d (pathOf k)) (projectAliases d (pathOf l))) :
    (s.bundleAt d (pathOf k)).Alike (fun _ _ => True) (Bundle.SameBelow (pathOf k) (pathOf l)) (s.bundleAt d (pathOf l)) := by
  have start : Workspace.Matched d (Twin (pathOf k) (pathOf l) T) { disk := d } { disk := d } := ⟨rfl, rfl, .nil, .nil⟩
  have made := (bundle_paired hd hk hl h some_patterns within leads _ _ start).1
  rw [bundleAt_eq hk.located, bundleAt_eq hl.located]
  exact made.mono fun b c related => related.sameBelow h (Disk.text_pathOf_ne k) (Disk.text_pathOf_ne l)

/-! ### A tree in three places -/

/-- Settings whose patterns do not climb reach only what is at the end of names. -/
private theorem within_of_descending {root : Path} (patterns : ∀ pattern ∈ s.patterns, Glob.Descending pattern)
    (common : ∀ o text, s.writtenOptions d root = .ok o → s.common.getD o.common = .pattern text → Glob.Descending text) :
    s.Within d root fun route => ∃ names, Path.ComesTo route names where
  patterns := fun pattern hp route spelled => spelled.comesTo (patterns pattern hp)
  optionFile := ⟨_, .of_names (by decide)⟩
  common := fun o text written named => Spelled.comesTo (.inl rfl) (common o text written named)

/-- Where nothing has the name of a file that declares aliases, there are none. -/
private theorem projectAliases_eq_nil (hd : d.Regular) (located : d.locate (pathOf k) = .ok k)
    (undeclared : ∀ entry ∈ d.nodes, entry.1.getLast? ≠ some "tsconfig.json") : projectAliases d (pathOf k) = [] := by
  have none_in (p : Path) (hp : p ∈ (Ignore.walk d (pathOf k)).entries) (named : p.fileName? = some "tsconfig.json") :
      fileAliases d (pathOf k) p = [] := by
    have no_file : d.isFile p = false := by
      rw [← Bool.not_eq_true]
      intro file
      obtain ⟨l, hne, rfl, standing⟩ := Ignore.standing_of_mem_walk hd located hp file
      obtain ⟨node, there⟩ := Option.ne_none_iff_exists'.1 standing.there
      obtain ⟨front, last, rfl⟩ := (List.eq_nil_or_concat l).resolve_left hne
      rw [List.concat_eq_append] at there named standing
      rw [Path.fileName?, Disk.components_pathOf standing.named, List.map_append, ← List.cons_append, List.map_singleton,
        List.getLast?_concat] at named
      exact undeclared _ (Disk.mem_nodes_of_node? (by simp) there) (by simpa using named)
    unfold fileAliases
    split
    · rename_i text read
      rw [Disk.isFile_of_readText read] at no_file
      cases no_file
    · rfl
  have all (files : List Path) (h : ∀ p ∈ files, fileAliases d (pathOf k) p = []) :
      files.foldl (fun (t : AliasTable) p => t.update (fileAliases d (pathOf k) p)) [] = [] := by
    induction files with
    | nil => rfl
    | cons p files ih =>
      rw [List.forall_mem_cons] at h
      rw [List.foldl_cons, h.1]
      exact ih h.2
  refine all _ fun p hp => ?_
  obtain ⟨listed, named⟩ := List.mem_filter.1 hp
  exact none_in p listed (by simpa using named)

/-- A disk with the same tree in three places. The name of one of them can be read as a pattern for another one. -/
def homes : Disk where
  workingDirectory := []
  nodes := [(["[q]"], .directory 0), (["[q]", "a.js"], .file "import \"./b.js\";".toUTF8 0),
    (["[q]", "b.js"], .file "".toUTF8 0), (["q"], .directory 0), (["q", "a.js"], .file "import \"./b.js\";".toUTF8 1),
    (["q", "b.js"], .file "".toUTF8 1), (["r"], .directory 0), (["r", "s"], .directory 0),
    (["r", "s", "a.js"], .file "import \"./b.js\";".toUTF8 2), (["r", "s", "b.js"], .file "".toUTF8 2)]

/-- Patterns for the first of the scripts, and for all of them. -/
def homeSettings : Settings := { patterns := ["a.*"], common := some (.pattern "*.js") }

private theorem regular_homes : homes.Regular where
  grounded := nofun
  named := by decide
  distinct := by decide
  anchored := Disk.anchored_of_root rfl

private theorem unlinked_homes : homes.Unlinked := Disk.unlinked_of_nodes (by simp [homes])

private theorem sameTree_homes {k l : Location} (forth : homes.Copies k l) (back : homes.Copies l k) (hk : k ≠ [])
    (hl : l ≠ [])
    (named : ∀ name ∈ k, IsName name) (named' : ∀ name ∈ l, IsName name) : homes.SameTree (pathOf k) (pathOf l) :=
  forth.sameTree regular_homes unlinked_homes (by decide) back hk hl named named'

private theorem settledAt_homes {k : Location} (located : homes.locate (pathOf k) = .ok k) (s : Settings) :
    s.settledAt homes (pathOf k) = { s with root := some (pathOf k), aliases := [] } := by
  rw [settledAt, projectAliases_eq_nil regular_homes located (by decide)]

/-- Below a place whose name matches the other one, the pattern finds what is in the other one. -/
private theorem expand_homes : Glob.expand homes ["/q/a.*"] = .ok (.ofList [⟨"/q/a.js"⟩]) ∧
    Glob.expand homes ["/[q]/a.*"] = .ok (.ofList [⟨"/q/a.js"⟩]) := by
  have last (n : Nat) : (⟨homes, false⟩ : Glob.Search).below (n + 3) [⟨[.char 'a', .char '.', .anyRun]⟩] ⟨"/q"⟩ =
      [⟨"/q/a.js"⟩] := by
    rw [Glob.below_of_sorted ["a.js", "b.js"] (by decide) (by decide) (by decide +kernel) (by rfl) (by decide)]
    rfl
  have found : Glob.paths homes "/q/a.*" = .ok [⟨"/q/a.js"⟩] := by
    have whole : Glob.parse "/q/a.*" = .ok [.char '/', .char 'q', .char '/', .char 'a', .char '.', .anyRun] := by
      decide +kernel
    have pieces : (Glob.steps "/q/a.*").mapM Glob.parse = .ok [[.char 'q'], [.char 'a', .char '.', .anyRun]] := by
      decide +kernel
    rw [Glob.paths_eq, whole, pieces]
    show Except.ok (Glob.Search.below _ 16392 _ ⟨"/"⟩) = _
    exact congrArg Except.ok (last 16387)
  have found' : Glob.paths homes "/[q]/a.*" = .ok [⟨"/q/a.js"⟩] := by
    have whole : Glob.parse "/[q]/a.*" =
        .ok [.char '/', .within [.one 'q'], .char '/', .char 'a', .char '.', .anyRun] := by
      decide +kernel
    have pieces : (Glob.steps "/[q]/a.*").mapM Glob.parse = .ok [[.within [.one 'q']], [.char 'a', .char '.', .anyRun]] := by
      decide +kernel
    have visited : (⟨homes, false⟩ : Glob.Search).visit 16391 [⟨[.within [.one 'q']]⟩, ⟨[.char 'a', .char '.', .anyRun]⟩]
        ⟨"/q"⟩ "q" = [⟨"/q/a.js"⟩] := last 16386
    rw [Glob.paths_eq, whole, pieces]
    show Except.ok (Glob.Search.below _ (16391 + 1) _ ⟨"/"⟩) = _
    rw [List.map_cons, Glob.below_of_sorted ["[q]", "q", "r"] (by decide) (by decide) (by decide +kernel) (by rfl) (by decide)]
    show Except.ok ([] ++ (Glob.Search.visit _ 16391 _ ⟨"/q"⟩ "q" ++ [])) = _
    exact congrArg (fun ps => Except.ok (ps ++ [])) visited
  rw [Glob.expand_single, Glob.expand_single, Glob.expandOne, Glob.expandOne, if_neg (by decide +kernel),
    if_neg (by decide +kernel), found, found']
  exact ⟨rfl, rfl⟩

/-- The bundle of a place, made of what the patterns stand for. -/
private theorem bundleAt_homes {k : Location} {found : List Path} (located : homes.locate (pathOf k) = .ok k)
    (expanded : Glob.expand homes [((pathOf k).join ⟨"a.*"⟩).text] = .ok (.ofList found)) :
    homeSettings.bundleAt homes (pathOf k) = (({ homeSettings with root := some (pathOf k) } : Settings).bundleOf homes
      (pathOf k) (PathSet.ofList found).toList { disk := homes }).1 := by
  have named : (homeSettings.settledAt homes (pathOf k)).entryPatterns homes = .ok [((pathOf k).join ⟨"a.*"⟩).text] :=
    entryPatterns_settledAt (List.cons_ne_nil _ _) homes (pathOf k)
  rw [bundleAt_eq located, bundle_eq_bundleOf (w := { disk := homes }) rfl named expanded, settledAt_homes located]
  rfl

/-- Two of the places. -/
private theorem plainRoot_homes : homes.PlainRoot ["q"] ∧ homes.PlainRoot ["r", "s"] :=
  ⟨⟨by decide, by decide, by decide, by decide⟩, ⟨by decide, by decide, by decide, by decide⟩⟩

private theorem leads_homes {aliases aliases' : AliasTable} : Path.Twin.Leads homes (pathOf ["q"]) (pathOf ["r", "s"])
    (fun route => ∃ names, Path.ComesTo route names) aliases aliases' := by
  refine .of_copies unlinked_homes (sameTree_homes (by decide) (by decide) (by simp) (by simp) (by decide) (by decide))
    (by decide) (by decide) ?_
  intro names content time text loads there decoded parsed load hload
  obtain ⟨rfl, rfl, rfl⟩ | ⟨rfl, rfl, rfl⟩ : (names = ["a.js"] ∧ content = "import \"./b.js\";".toUTF8 ∧ time = 1) ∨
      (names = ["b.js"] ∧ content = "".toUTF8 ∧ time = 1) := by
    simpa [homes] using there
  all_goals
    rw [Disk.fromUTF8?_toUTF8, Option.some_inj] at decoded
    subst decoded
  · have requests : (requestsOf (pathOf ["q", "a.js"]) "import \"./b.js\";").toOption = some [⟨"./b.js", .eager⟩] := by
      decide +kernel
    rw [show ["q"] ++ ["a.js"] = ["q", "a.js"] from rfl] at parsed
    rw [parsed] at requests
    obtain rfl : load = ⟨"./b.js", .eager⟩ := by simpa [Option.some.inj requests] using hload
    exact ⟨by decide +kernel, ["b.js"], by decide +kernel, by decide +kernel, by simp, by decide⟩
  · have requests : (requestsOf (pathOf ["q", "b.js"]) "").toOption = some [] := by decide +kernel
    rw [show ["q"] ++ ["b.js"] = ["q", "b.js"] from rfl] at parsed
    rw [parsed] at requests
    simp [Option.some.inj requests] at hload

theorem bundleAt_alike_homes : homes.PlainRoot ["q"] ∧ homes.PlainRoot ["r", "s"] ∧
    homes.SameTree (pathOf ["q"]) (pathOf ["r", "s"]) ∧ homeSettings.patterns ≠ [] ∧
    (homeSettings.bundleAt homes (pathOf ["q"])).Alike (fun _ _ => True)
      (Bundle.SameBelow (pathOf ["q"]) (pathOf ["r", "s"])) (homeSettings.bundleAt homes (pathOf ["r", "s"])) := by
  have same : homes.SameTree (pathOf ["q"]) (pathOf ["r", "s"]) :=
    sameTree_homes (by decide) (by decide) (by simp) (by simp) (by decide) (by decide)
  have within : homeSettings.Within homes (pathOf ["q"]) fun route => ∃ names, Path.ComesTo route names := by
    refine within_of_descending ?_ fun o text _ named => ?_
    · have descending : Glob.Descending "a.*" := by decide +kernel
      simpa [homeSettings] using descending
    · have descending : Glob.Descending "*.js" := by decide +kernel
      obtain rfl : "*.js" = text := by simpa [homeSettings] using named
      exact descending
  obtain ⟨plain, plain'⟩ := plainRoot_homes
  exact ⟨plain, plain', same, List.cons_ne_nil _ _, bundleAt_alike regular_homes plain plain'
    (same.alike (Disk.text_pathOf_ne _) (Disk.text_pathOf_ne _)) (List.cons_ne_nil _ _) within leads_homes⟩

/-- The bundle of the place with brackets in its name is made of the files of another place, that of the other place of its
own files. -/
theorem bundleAt_by_name : homes.SameTree (pathOf ["[q]"]) (pathOf ["q"]) ∧
    homes.locate (pathOf ["[q]"]) = .ok ["[q]"] ∧ homes.locate (pathOf ["q"]) = .ok ["q"] ∧
    homes.isDirectory (pathOf ["[q]"]) = true ∧ homes.isDirectory (pathOf ["q"]) = true ∧
    homeSettings.patterns = ["a.*"] ∧ homeSettings.common = some (.pattern "*.js") ∧
    ∃ b c, homeSettings.bundleAt homes (pathOf ["[q]"]) = .ok b ∧ homeSettings.bundleAt homes (pathOf ["q"]) = .ok c ∧
      b.files.map (·.text) = ["/q/a.js"] ∧ c.files.map (·.text) = ["/q/a.js"] ∧
      ¬ b.SameBelow (pathOf ["[q]"]) (pathOf ["q"]) c := by
  have located : homes.locate (pathOf ["[q]"]) = .ok ["[q]"] := by decide
  have located' : homes.locate (pathOf ["q"]) = .ok ["q"] := by decide
  have expanded : Glob.expand homes [((pathOf ["[q]"]).join ⟨"a.*"⟩).text] = .ok (.ofList [⟨"/q/a.js"⟩]) := expand_homes.2
  have expanded' : Glob.expand homes [((pathOf ["q"]).join ⟨"a.*"⟩).text] = .ok (.ofList [⟨"/q/a.js"⟩]) := expand_homes.1
  have given := Action.eq_ok_of_isOk (r := (({ homeSettings with root := some (pathOf ["[q]"]) } : Settings).bundleOf homes
      (pathOf ["[q]"]) (PathSet.ofList [⟨"/q/a.js"⟩]).toList { disk := homes }).1) (by decide +kernel)
  have given' := Action.eq_ok_of_isOk (r := (({ homeSettings with root := some (pathOf ["q"]) } : Settings).bundleOf homes
      (pathOf ["q"]) (PathSet.ofList [⟨"/q/a.js"⟩]).toList { disk := homes }).1) (by decide +kernel)
  refine ⟨sameTree_homes (by decide) (by decide) (by simp) (by simp) (by decide) (by decide), located, located', by decide,
    by decide, rfl, rfl, _, _, (bundleAt_homes located expanded).trans given, (bundleAt_homes located' expanded').trans given',
    by decide +kernel, by decide +kernel, ?_⟩
  rintro ⟨⟨rests, files, -⟩, -⟩
  have lost : (((({ homeSettings with root := some (pathOf ["[q]"]) } : Settings).bundleOf homes (pathOf ["[q]"])
      (PathSet.ofList [⟨"/q/a.js"⟩]).toList { disk := homes }).1.toOption.getD default).files.map
        (·.stripPrefix? (pathOf ["[q]"]))).all Option.isSome = false := by
    decide +kernel
  rw [files] at lost
  simp at lost

end Settings

end ScriptBundler
