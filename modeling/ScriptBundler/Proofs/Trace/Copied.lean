import ScriptBundler.Proofs.Disk.Alike
import ScriptBundler.Proofs.Path.Ancestors
import ScriptBundler.Proofs.Path.Clean
import ScriptBundler.Proofs.Trace.Twins

/-!
# Requests of copied scripts

Requests of twins should lead to twins (`Path.Twin.Leads`), so that twins are traced alike (`Leads.along`). In a tree without
links and a copy of it they do, as long as each request is a path to something below the root (`Leads.of_copies`).
-/

namespace ScriptBundler

open Disk (pathOf IsName)
open ScriptBundler.Path (Twin ComesTo Component cleanStep)

variable {d : Disk} {p q x y : Path} {k l : Location} {T : List String → Prop} {aliases aliases' : AliasTable}
  {names reached : List String} {name request extension : String}

/-! ### Scripts -/

private theorem Path.isScript_of_fileName? (h : x.fileName? = y.fileName?) : x.isScript = y.isScript := by
  unfold isScript extension?
  rw [h]

private theorem Path.dialect_of_fileName? (h : x.fileName? = y.fileName?) : x.dialect = y.dialect := by
  unfold dialect extension?
  rw [h]

/-- Twins go by one name or are no scripts, if the directories do not go by names of scripts. -/
private theorem Path.Twin.fileName? (h : d.Alike p q T) (hp : p.text ≠ "") (hq : q.text ≠ "") (hx : Twin p q T x y)
    (named : p.isScript = false) (named' : q.isScript = false) :
    x.fileName? = y.fileName? ∨ x.isScript = false ∧ y.isScript = false := by
  obtain ⟨route, ht, -, rfl, rfl⟩ := hx
  refine ((h.isRoute route ht).fileName?_under hp hq).imp_right fun ⟨own, own'⟩ => ⟨?_, ?_⟩
  · rwa [Path.isScript_of_fileName? own]
  · rwa [Path.isScript_of_fileName? own']

/-- Requests of twins lead to twins. -/
def Path.Twin.Leads (d : Disk) (p q : Path) (T : List String → Prop) (aliases aliases' : AliasTable) : Prop :=
  ∀ x y request, Twin p q T x y → Asked d (Twin p q T) x request →
    Option.Rel (Twin p q T) ((Resolver.of p aliases).find d x request) ((Resolver.of q aliases').find d y request)

theorem Path.Twin.Leads.along (leads : Path.Twin.Leads d p q T aliases aliases') (h : d.Alike p q T) (hp : p.text ≠ "")
    (hq : q.text ≠ "") (named : p.isScript = false) (named' : q.isScript = false) :
    (⟨.of p aliases, true⟩ : ImportTracer).Along ⟨.of q aliases', true⟩ d (Twin p q T) where
  matching := fun _ _ _ _ => Path.Twin.beq h hp hq
  followsLazy := rfl
  isScript := fun x y hx => by
    rcases hx.fileName? h hp hq named named' with same | ⟨none, none'⟩
    · exact Path.isScript_of_fileName? same
    · rw [none, none']
  dialect := fun x y hx script => by
    rcases hx.fileName? h hp hq named named' with same | ⟨none, -⟩
    · exact Path.dialect_of_fileName? same
    · rw [none] at script
      cases script
  readText := by
    rintro _ _ ⟨route, ht, -, rfl, rfl⟩
    exact h.readText ht
  find := leads

/-! ### From a script to what it asks for -/

/-- Read from the directory of a script, a request comes to other names, which are below the root. -/
structure Reaches (names : List String) (request : String) (reached : List String) : Prop where
  relative : (⟨request⟩ : Path).isAbsolute = false
  cleaned : (names.dropLast.map Component.normal ++ (⟨request⟩ : Path).components).foldl cleanStep [] = reached.map .normal
  below : reached ≠ []
  named : ∀ name ∈ reached, IsName name

/-- The path that is asked for below a root. -/
private theorem Reaches.clean_eq (h : Reaches names request reached) (hk : ∀ name ∈ k, IsName name)
    (hn : ∀ name ∈ names, IsName name) (hne : names ≠ []) (root : Path) :
    (((pathOf (k ++ names)).parent?.getD root).join ⟨request⟩).clean = pathOf (k ++ reached) := by
  have script := Disk.components_pathOf (List.forall_mem_append.2 ⟨hk, hn⟩)
  have descends : Path.Descends (names.dropLast.map Component.normal ++ (⟨request⟩ : Path).components) := by
    intro step hstep
    rw [h.cleaned] at hstep
    obtain ⟨name, -, rfl⟩ := List.mem_map.1 hstep
    exact ⟨name, rfl⟩
  rcases (pathOf (k ++ names)).parent?_spec with ⟨-, top⟩ | ⟨own, parent, steps, -⟩
  · simp [script, hne] at top
  · have directory : own.cleanSteps =
        (names.dropLast.map Component.normal).foldl cleanStep (.root :: k.map .normal) := by
      rw [Path.cleanSteps, steps, script, List.map_append, List.dropLast_cons_of_ne_nil (by simp [hne]),
        List.dropLast_append_of_ne_nil (by simpa using hne), List.foldl_cons, ← List.map_dropLast, ← List.map_append,
        Path.foldl_cleanStep_names, Path.foldl_cleanStep_names, List.map_append]
      rfl
    have cleaned : (own.join ⟨request⟩).cleanSteps = .root :: (k ++ reached).map .normal := by
      rw [Path.cleanSteps_join h.relative, directory, ← List.foldl_append, descends.foldl_cleanStep, h.cleaned,
        List.map_append]
      rfl
    rw [parent, Option.getD_some, Path.clean, ← Path.cleanSteps, cleaned]
    exact Disk.ofComponents_names _

/-! ### Looking for a file -/

/-- Where names may lead: with one of the extensions, or to an index file. -/
def candidatesBelow (names : List String) : List (List String) :=
  scriptExtensions.map (fun e => names.dropLast ++ [names.getLastD "" ++ "." ++ e]) ++
    scriptExtensions.map fun e => names ++ ["index." ++ e]

private theorem isName_append (h : IsName name) (he : extension ∈ scriptExtensions) :
    IsName (name ++ "." ++ extension) := by
  obtain ⟨slash, long⟩ : '/' ∉ extension.toList ∧ 2 ≤ extension.toList.length := by
    revert extension
    decide
  have spelled : (name ++ "." ++ extension).toList = name.toList ++ '.' :: extension.toList := by simp
  have longer : 2 < (name ++ "." ++ extension).toList.length := by
    rw [spelled, List.length_append, List.length_cons]
    omega
  refine ⟨?_, ?_, ?_, by simpa [spelled] using ⟨h.2.2.2, slash⟩⟩
  all_goals
    intro e
    rw [e] at longer
    simp at longer

private theorem isName_of_mem_candidatesBelow (hn : ∀ name ∈ names, IsName name) (hne : names ≠ []) {found : List String}
    (h : found ∈ candidatesBelow names) : found ≠ [] ∧ ∀ name ∈ found, IsName name := by
  obtain ⟨front, last, rfl⟩ := (List.eq_nil_or_concat names).resolve_left hne
  rw [List.concat_eq_append] at hn h
  have index : ∀ e ∈ scriptExtensions, IsName ("index." ++ e) := by decide
  simp only [candidatesBelow, List.dropLast_concat, List.getLastD_concat] at h
  rcases List.mem_append.1 h with h | h
  all_goals
    obtain ⟨e, he, rfl⟩ := List.mem_map.1 h
    refine ⟨by simp, ?_⟩
    rw [List.forall_mem_append, List.forall_mem_singleton]
  · rw [List.forall_mem_append, List.forall_mem_singleton] at hn
    exact ⟨hn.1, isName_append hn.2 he⟩
  · exact ⟨hn, index e he⟩

private theorem pathOf_concat_append (k : Location) (name text : String) :
    (⟨(pathOf (k ++ [name])).text ++ text⟩ : Path) = pathOf (k ++ [name ++ text]) := by
  have spelled : ((pathOf (k ++ [name])).text ++ text).toList = (pathOf (k ++ [name ++ text])).text.toList := by
    rw [String.toList_append, Disk.toList_pathOf, Disk.toList_pathOf, List.map_append, List.map_append]
    by_cases top : k = []
    · simp [top, Path.joinPieces]
    · rw [List.map_singleton, List.map_singleton, Disk.joinPieces_concat (by simpa using top),
        Disk.joinPieces_concat (by simpa using top)]
      simp
  exact congrArg Path.mk (String.toList_inj.1 spelled)

private theorem candidates_pathOf (hk : ∀ name ∈ k, IsName name) (hn : ∀ name ∈ names, IsName name) (hne : names ≠ []) :
    candidates (pathOf (k ++ names)) = (candidatesBelow names).map fun found => pathOf (k ++ found) := by
  obtain ⟨front, last, rfl⟩ := (List.eq_nil_or_concat names).resolve_left hne
  rw [List.concat_eq_append] at hn ⊢
  have index : ∀ e ∈ scriptExtensions, IsName ("index." ++ e) := by decide
  simp only [candidates, candidatesBelow, List.dropLast_concat, List.getLastD_concat, List.map_append, List.map_map]
  congr 1
  · refine List.map_congr_left fun e _ => ?_
    have joined := pathOf_concat_append (k ++ front) last ("." ++ e)
    rw [List.append_assoc, List.append_assoc, ← String.append_assoc, ← String.append_assoc] at joined
    exact joined
  · refine List.map_congr_left fun e he => ?_
    rw [Disk.join_pathOf (List.forall_mem_append.2 ⟨hk, hn⟩) (index e he)]
    simp

/-- Without links the path of a file is the one by which it is known. -/
private theorem canonical_pathOf (hu : d.Unlinked) (hk : ∀ name ∈ k, IsName name) (file : d.isFile (pathOf k) = true) :
    canonical d (pathOf k) = pathOf k := by
  obtain ⟨location, content, time, located, -, e⟩ := Disk.exists_place file
  rw [e, ((Disk.locate_pathOf hu hk).1 located).2.eq_append, List.nil_append]

/-- The text of a file stands at its place. -/
private theorem mem_nodes_of_readText {text : String} (hu : d.Unlinked) (hk : ∀ name ∈ k, IsName name) (hne : k ≠ [])
    (h : d.readText (pathOf k) = .ok text) : ∃ content time, (k, .file content time) ∈ d.nodes ∧
      String.fromUTF8? content = some text := by
  obtain ⟨content, read, decoded⟩ := Action.bind_eq_ok.1 h
  obtain ⟨node, stat, content_eq⟩ := Action.bind_eq_ok.1 read
  obtain ⟨location, located, there⟩ := Disk.stat_eq_ok.1 stat
  rw [((Disk.locate_pathOf hu hk).1 located).2.eq_append, List.nil_append] at there
  split at content_eq
  · rename_i file time
    cases content_eq
    refine ⟨content, time, Disk.mem_nodes_of_node? hne there, ?_⟩
    split at decoded
    · rename_i same
      rw [same, Except.ok.inj decoded]
    · cases decoded
  · cases content_eq
  · cases content_eq

section

variable (hu : d.Unlinked) (same : d.SameTree (pathOf k) (pathOf l)) (hk : ∀ name ∈ k, IsName name)
  (hl : ∀ name ∈ l, IsName name)
include hu same hk hl

/-- In both places the same file is found, or none. -/
private theorem resolveFile_copies (hn : ∀ name ∈ names, IsName name) (hne : names ≠ []) :
    Option.Rel (Twin (pathOf k) (pathOf l) fun route => ∃ names, ComesTo route names)
      (resolveFile d (pathOf (k ++ names))) (resolveFile d (pathOf (l ++ names))) := by
  have isFile_eq {names : List String} (hn : ∀ name ∈ names, IsName name) :
      d.isFile (pathOf (k ++ names)) = d.isFile (pathOf (l ++ names)) := by
    rw [← Disk.under_pathOf hk hn, ← Disk.under_pathOf hl hn]
    exact (same.alike (Disk.text_pathOf_ne k) (Disk.text_pathOf_ne l)).isFile ⟨names, .of_names hn⟩
  have found {names : List String} (hn : ∀ name ∈ names, IsName name) (hne : names ≠ [])
      (file : d.isFile (pathOf (k ++ names)) = true) :
      Twin (pathOf k) (pathOf l) (fun route => ∃ names, ComesTo route names) (canonical d (pathOf (k ++ names)))
        (canonical d (pathOf (l ++ names))) := by
    rw [canonical_pathOf hu (List.forall_mem_append.2 ⟨hk, hn⟩) file,
      canonical_pathOf hu (List.forall_mem_append.2 ⟨hl, hn⟩) (isFile_eq hn ▸ file)]
    exact ⟨names, ⟨names, .of_names hn⟩, hne, (Disk.under_pathOf hk hn).symm, (Disk.under_pathOf hl hn).symm⟩
  have first (founds : List (List String)) (h : ∀ names ∈ founds, names ≠ [] ∧ ∀ name ∈ names, IsName name) :
      Option.Rel (Twin (pathOf k) (pathOf l) fun route => ∃ names, ComesTo route names)
        (((founds.map fun names => pathOf (k ++ names)).find? d.isFile).map (canonical d))
        (((founds.map fun names => pathOf (l ++ names)).find? d.isFile).map (canonical d)) := by
    induction founds with
    | nil => exact .none
    | cons names founds ih =>
      rw [List.forall_mem_cons] at h
      rw [List.map_cons, List.map_cons, List.find?_cons, List.find?_cons, ← isFile_eq h.1.2]
      rcases file : d.isFile (pathOf (k ++ names)) with _ | _
      · exact ih h.2
      · exact .some (found h.1.2 h.1.1 file)
  unfold resolveFile
  rw [← isFile_eq hn]
  split
  · rename_i file
    exact .some (found hn hne file)
  · rw [candidates_pathOf hk hn hne, candidates_pathOf hl hn hne]
    exact first _ fun names h => isName_of_mem_candidatesBelow hn hne h

/-- In a tree without links and a copy of it, requests that are paths to something below the root lead to twins. -/
theorem Path.Twin.Leads.of_copies (paths : ∀ names content time text loads,
      (k ++ names, .file content time) ∈ d.nodes → String.fromUTF8? content = some text →
      requestsOf (pathOf (k ++ names)) text = .ok loads → ∀ load ∈ loads,
        isPathRequest load.request = true ∧ ∃ reached, Reaches names load.request reached) :
    Path.Twin.Leads d (pathOf k) (pathOf l) (fun route => ∃ names, ComesTo route names) aliases aliases' := by
  rintro _ _ request ⟨route, ⟨names, comes⟩, hne, rfl, rfl⟩
    ⟨_, _, text, loads, ⟨route', ⟨names', comes'⟩, -, rfl, rfl⟩, same_script, read, parsed, load, hload, rfl⟩
  have below : names ≠ [] := comes.ne_nil hne
  obtain ⟨-, hn, comes⟩ := comes
  obtain ⟨-, hn', comes'⟩ := comes'
  rw [comes _ (Disk.text_pathOf_ne k), Disk.under_pathOf hk hn] at same_script ⊢
  rw [comes _ (Disk.text_pathOf_ne l), Disk.under_pathOf hl hn]
  rw [comes' _ (Disk.text_pathOf_ne k), Disk.under_pathOf hk hn'] at same_script read parsed
  obtain rfl : names' = names := by
    rw [Path.beq_iff, Disk.components_pathOf (List.forall_mem_append.2 ⟨hk, hn'⟩),
      Disk.components_pathOf (List.forall_mem_append.2 ⟨hk, hn⟩)] at same_script
    exact List.map_injective_iff.2 (fun _ _ => Component.normal.inj) (by simpa using same_script)
  obtain ⟨content, time, there, decoded⟩ := mem_nodes_of_readText hu (List.forall_mem_append.2 ⟨hk, hn⟩) (by simp [below]) read
  obtain ⟨path, reached, reaches⟩ := paths _ _ _ _ _ there decoded parsed load hload
  rw [Resolver.find, Resolver.find, if_pos path, if_pos path, reaches.clean_eq hk hn below, reaches.clean_eq hl hn below]
  exact resolveFile_copies hu same hk hl reaches.named reaches.below

end

end ScriptBundler
