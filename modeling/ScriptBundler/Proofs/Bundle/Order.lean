import ScriptBundler.Proofs.Bundle.Jobs
import ScriptBundler.Proofs.Bundle.Live
import ScriptBundler.Proofs.Load
import ScriptBundler.Proofs.Workspace

/-!
# The order of a build does not matter

While a bundle is built, its entries go through the same memories, and outputs come to the disk on which others still
look for their files. None of this reaches an output (`build_in_any_order`): the traces of a bundle that is alive are
fixed, and a file that no output is written to is loaded as from the disk at the start, be it from memory or not.

There is one exception. What is remembered of a file has the spelling with which it was loaded first, and this is the
name in its map. If a file is needed in two spellings, outputs depend on the order (`builds_differ`).
-/

namespace ScriptBundler.Bundle

open Workspace

variable {σ : Type}

/-- The files that the trace of an entry lists. -/
def tracedFrom (c : Collaborators σ) (w : σ) (e : Path) : List Path :=
  ((c.trace [e] w).1.toOption.getD []).map (·.path)

/-- The common files, and all that the traces of entries list. -/
def needed (c : Collaborators σ) (b : Bundle) (w : σ) : List Path :=
  b.partition.common.toList ++ b.files.flatMap (tracedFrom c w)

/-- The files of the output of a target. -/
def contents (c : Collaborators σ) (b : Bundle) (w : σ) (p : Path) : List Path :=
  if b.isEntry p then b.listing p (tracedFrom c w p) else b.partition.common.toList

/-- Outputs go to different files, and to none that is needed. -/
structure Apart (c : Collaborators Workspace) (b : Bundle) (base out : Path) (w : Workspace) : Prop where
  outputs : b.targets.Pairwise fun p q => ¬ w.disk.Meet (outputPath base out p) (outputPath base out q)
  needed : ∀ p ∈ b.targets, ∀ q ∈ b.needed c w, ¬ w.disk.Meet (outputPath base out p) q

/-- No file is needed in two spellings. -/
def SpelledOnce (c : Collaborators σ) (b : Bundle) (w : σ) : Prop :=
  ∀ p ∈ b.needed c w, ∀ q ∈ b.needed c w, (p == q) = true → p.text = q.text

instance (c : Collaborators σ) (b : Bundle) (w : σ) : Decidable (b.SpelledOnce c w) :=
  inferInstanceAs (Decidable (∀ p ∈ b.needed c w, ∀ q ∈ b.needed c w, (p == q) = true → p.text = q.text))

variable {root base out : Path} {aliases : AliasTable} {b : Bundle} {w w' : Workspace} {e p q : Path}

private theorem not_isEntry_of_chunk {d : Path} (h : b.chunk? = some d) : ¬ b.isEntry d = true := by
  unfold chunk? at h
  simpa using (Option.filter_eq_some_iff.1 h).2

private theorem mem_listing {trace : List Path} (h : q ∈ b.listing e trace) :
    q ∈ b.partition.common.toList ∨ q ∈ trace := by
  unfold listing at h
  rcases List.mem_append.1 h with carried | own
  · split at carried
    · exact .inl carried
    · cases carried
  · split at own
    · exact .inr (List.mem_filter.1 own).1
    · exact .inr own

private theorem mem_needed {c : Collaborators σ} {w : σ} (hp : p ∈ b.targets) (hq : q ∈ b.contents c w p) :
    q ∈ b.needed c w := by
  unfold contents at hq
  unfold needed
  rw [List.mem_append, List.mem_flatMap]
  split at hq
  · rename_i entry
    have file : p ∈ b.files := by
      rcases List.mem_append.1 hp with file | chunk
      · exact file
      · exact absurd entry (not_isEntry_of_chunk (Option.mem_toList.1 chunk))
    exact (mem_listing hq).imp_right fun traced => ⟨p, file, traced⟩
  · exact .inl hq

/-- What is to be loaded for a file. -/
def sourceAt (root : Path) (w : Workspace) (p : Path) : SourceFile := (w.loaded? root p).getD default

/-- A workspace along a build in which outputs have been written. -/
structure Reached (root base out : Path) (aliases : AliasTable) (b : Bundle) (w : Workspace) (done : List Path)
    (w' : Workspace) : Prop where
  along : Along root (b.needed (collaborators root aliases) w) w w'
  targets : ∀ p ∈ done, p ∈ b.targets
  holds : ∀ p ∈ done, w'.disk.Holds (outputPath base out p)
    (textOf b (b.contents (collaborators root aliases) w) (sourceAt root w) p)

private theorem Live.filesOf_agrees (live : b.Live root aliases w) (he : e ∈ b.files) (done : List Path) :
    (b.filesOf (collaborators root aliases) e).Agrees (Reached root base out aliases b w done)
      (b.contents (collaborators root aliases) w e) := by
  intro w₁ files w₂ reached given
  obtain ⟨fs, traces⟩ := live.gives_trace he
  obtain ⟨fs₁, traced, rfl⟩ := gives_filesOf given
  obtain ⟨m, traced₁, within⟩ := traces w₁ reached.along.imports
  obtain ⟨rfl, rfl⟩ := traced.unique traced₁
  -- the trace is the one that the entry has at the start
  obtain ⟨m₀, traced₀, -⟩ := traces w (.refl _)
  have ends : (collaborators root aliases).trace [e] w = (.ok fs₁, { w with imports := m₀ }) := traced₀
  refine ⟨?_, ⟨?_, reached.along.grows, reached.along.spared, reached.along.loads⟩, reached.targets, reached.holds⟩
  · unfold contents tracedFrom
    rw [if_pos (isEntry_of_mem he), ends]
    rfl
  · exact reached.along.imports.trans within

private theorem write_agrees (anchored : w.disk.Anchored) (apart : b.Apart (collaborators root aliases) base out w)
    (hp : p ∈ b.targets) {done : List Path} {o : Output} {w₁ w₂ : Workspace}
    (reached : Reached root base out aliases b w done w₁)
    (given : (Workspace.write (outputPath base out p)
      (textOf b (b.contents (collaborators root aliases) w) (sourceAt root w) p)).Gives w₁ o w₂) :
    o = outputOf b base out (b.contents (collaborators root aliases) w) (sourceAt root w) p ∧
      Reached root base out aliases b w (p :: done) w₂ := by
  obtain ⟨along, targets, holds⟩ := reached
  obtain ⟨rfl, ends, lands⟩ := write_lands (anchored.grow along.grows) given
  have goal_eq : ∀ q, w₁.disk.goal? q = w.disk.goal? q := along.grows.goal?
  refine ⟨rfl, ⟨?_, ?_, ?_, ?_⟩, ?_, ?_⟩
  · rw [ends]
    exact along.imports
  · exact along.grows.trans lands.grows
  · -- no needed file is where the output lands
    intro q hq k hk
    refine (along.spared q hq k hk).trans (lands.spared k fun same => ?_)
    rw [goal_eq] at same
    exact apart.needed p hp q hq ⟨same.trans hk.symm, by simp [same]⟩
  · rw [ends]
    exact along.loads
  · rw [List.forall_mem_cons]
    exact ⟨hp, targets⟩
  · -- nor is another output, and so what has been written before keeps its text
    intro q hq
    by_cases same : q = p
    · rw [same]
      exact lands.holds
    · have hq : q ∈ done := (List.mem_cons.1 hq).resolve_left same
      refine lands.keeps (fun meet => ?_) (holds q hq)
      have sym : Std.Symm fun p q => ¬ w.disk.Meet (outputPath base out p) (outputPath base out q) :=
        ⟨fun _ _ k meet => k meet.symm⟩
      refine apart.outputs.forall (targets q hq) hp same ?_
      unfold Disk.Meet at meet ⊢
      rwa [goal_eq, goal_eq] at meet

/-- The workspaces along a build of a bundle that is alive agree on its outputs. -/
private theorem Live.agreement (live : b.Live root aliases w) (anchored : w.disk.Anchored)
    (apart : b.Apart (collaborators root aliases) base out w) (spelled : b.SpelledOnce (collaborators root aliases) w) :
    Agreement (collaborators root aliases) Workspace.write b base out (Reached root base out aliases b w)
      (b.contents (collaborators root aliases) w) (sourceAt root w) where
  filesOf done e he := live.filesOf_agrees he done
  common d hd := by
    unfold contents
    rw [if_neg (not_isEntry_of_chunk hd)]
  load done p hp q hq w₁ f w₂ reached given := by
    have once : ∀ p ∈ b.needed (collaborators root aliases) w, ∀ q ∈ b.needed (collaborators root aliases) w,
        (p == q) = true → p = q := fun p hp q hq same => congrArg Path.mk (spelled p hp q hq same)
    obtain ⟨loaded, disk_eq, along⟩ := reached.along.load once (mem_needed hp hq) given
    refine ⟨by rw [sourceAt, loaded]; rfl, along, reached.targets, ?_⟩
    rw [disk_eq]
    exact reached.holds
  emit done event w₁ reached :=
    ⟨⟨reached.along.imports, reached.along.grows, reached.along.spared, reached.along.loads⟩, reached.targets,
      reached.holds⟩
  write done p hp w₁ o w₂ reached given := write_agrees anchored apart hp reached given
  mono done done' w₁ sub reached := ⟨reached.along, fun p hp => reached.targets p (sub p hp),
    fun p hp => reached.holds p (sub p hp)⟩

/-- Entries may be compiled and written in any order, and side by side. If outputs go to different files and to none
that is needed, and no file is needed in two spellings, a build that succeeds answers with the same outputs, first those
of the entries and then that of the common files, and writes the same texts. -/
theorem build_in_any_order (live : b.Live root aliases w) (anchored : w.disk.Anchored)
    (apart : b.Apart (collaborators root aliases) base out w) (spelled : b.SpelledOnce (collaborators root aliases) w) :
    (∀ outputs w', (b.build (collaborators root aliases) Workspace.write base out).Gives w outputs w' →
      Builds (collaborators root aliases) Workspace.write b base out w outputs w') ∧
    ∃ text : Path → String, ∀ outputs w', Builds (collaborators root aliases) Workspace.write b base out w outputs w' →
      outputs = b.targets.map (fun p => ⟨outputPath base out p, (text p).utf8ByteSize⟩) ∧
        ∀ p ∈ b.targets, w'.disk.readText (outputPath base out p) = .ok (text p) := by
  have start : Reached root base out aliases b w [] w := ⟨.refl _ _ _, nofun, nofun⟩
  refine ⟨fun _ _ built => builds_of_build built,
    textOf b (b.contents (collaborators root aliases) w) (sourceAt root w), fun outputs w' built => ?_⟩
  obtain ⟨outputs_eq, reached⟩ := (live.agreement anchored apart spelled).builds start built
  exact ⟨outputs_eq, fun p hp => (reached.holds p hp).readText⟩

/-- The collaborators of a project in the root directory, without aliases. -/
def atRoot : Collaborators Workspace := collaborators ⟨"/"⟩ []

/-- Two scripts that ask for a third one. -/
def pair : Workspace where
  disk := .ofScripts [("a.js", "import './s.js';"), ("b.js", "import './s.js';"), ("s.js", "")]

/-- Their bundle, with an output for the third one. -/
def ofPair : Action Workspace Bundle := Bundle.of atRoot ["/a.js", "/b.js"] { common := .pattern "/s.js" }

/-- The three outputs are those of the build in order. -/
theorem build_in_any_order_pair : ∃ b w outputs w₁, ofPair.Gives pair b w ∧ b.Live ⟨"/"⟩ [] w ∧ w.disk.Anchored ∧
    b.Apart atRoot ⟨"/"⟩ ⟨"/dist"⟩ w ∧ b.SpelledOnce atRoot w ∧
    (b.build atRoot Workspace.write ⟨"/"⟩ ⟨"/dist"⟩).Gives w outputs w₁ ∧
    outputs.map (·.path.text) = ["/dist/a.js", "/dist/b.js", "/dist/s.js"] ∧
    ∃ text : Path → String, ∀ outputs' w', Builds atRoot Workspace.write b ⟨"/"⟩ ⟨"/dist"⟩ w outputs' w' →
      outputs' = outputs ∧ ∀ p ∈ b.targets, w'.disk.readText (outputPath ⟨"/"⟩ ⟨"/dist"⟩ p) = .ok (text p) := by
  obtain ⟨b, w, made, ⟨here, spelled, outside, different⟩, outputs, w₁, built, paths⟩ : ∃ b w, ofPair.Gives pair b w ∧
      (w.disk.workingDirectory = [] ∧ b.SpelledOnce atRoot w ∧
        (∀ p ∈ b.targets, ∀ q ∈ b.needed atRoot w, ¬ w.disk.Meet (outputPath ⟨"/"⟩ ⟨"/dist"⟩ p) q) ∧
        b.targets.Pairwise fun p q => ¬ w.disk.Meet (outputPath ⟨"/"⟩ ⟨"/dist"⟩ p) (outputPath ⟨"/"⟩ ⟨"/dist"⟩ q)) ∧
      ∃ outputs w₁, (b.build atRoot Workspace.write ⟨"/"⟩ ⟨"/dist"⟩).Gives w outputs w₁ ∧
        outputs.map (·.path.text) = ["/dist/a.js", "/dist/b.js", "/dist/s.js"] :=
    ⟨_, _, Action.gives_from pair (by decide +kernel), by decide +kernel, _, _,
      Action.gives_from _ (by decide +kernel), by decide +kernel⟩
  have live : b.Live ⟨"/"⟩ [] w := live_of made
  have anchored := Disk.anchored_of_root here
  obtain ⟨side_by_side, text, all⟩ := build_in_any_order live anchored ⟨different, outside⟩ spelled
  refine ⟨b, w, outputs, w₁, made, live, anchored, ⟨different, outside⟩, spelled, built, paths, text, ?_⟩
  intro outputs' w' other
  obtain ⟨outputs_eq, texts⟩ := all outputs' w' other
  exact ⟨outputs_eq.trans (all outputs w₁ (side_by_side outputs w₁ built)).1.symm, texts⟩

/-! ### Files in two spellings -/

namespace Chained

/-- A directory with two scripts, of which one asks for the other. -/
def project : Workspace where
  disk :=
    { workingDirectory := [],
      nodes := [(["src"], .directory 0), (["src", "a.js"], .file "A".toUTF8 0),
        (["src", "b.js"], .file "import './a.js';".toUTF8 0)] }

/-- The script that is asked for, spelled with two slashes. -/
def first : Path := ⟨"/src//a.js"⟩

def second : Path := ⟨"/src/b.js"⟩

/-- Where the outputs of the scripts are written. -/
def written (p : Path) : Path := outputPath ⟨"/"⟩ ⟨"/dist"⟩ p

/-- The bundle of the scripts, and the workspace in which it has been found. -/
def make : Action Workspace Bundle := Bundle.of atRoot [first.text, second.text] {}

def bundle : Bundle := (make project).1.toOption.getD default

def found : Workspace := (make project).2

theorem made : make.Gives project bundle found := Action.gives_from project (by decide +kernel)

private theorem apart : found.disk.workingDirectory = [] ∧ bundle.chunk? = none ∧
    bundle.files.map (·.text) = [first, second].map (·.text) ∧
    (bundle.targets.Pairwise fun p q => ¬ found.disk.Meet (written p) (written q)) ∧
    ∀ p ∈ bundle.targets, ∀ q ∈ bundle.needed atRoot found, ¬ found.disk.Meet (written p) q := by decide +kernel

private theorem files : bundle.files = [first, second] :=
  List.map_injective_iff.2 (fun _ _ e => congrArg Path.mk e) apart.2.2.1

/-- The scripts are compiled and written in some order. -/
private theorem builds_of_runs {o₁ o₂ : Output} {w : Workspace}
    (runs : Runs atRoot Workspace.write bundle ⟨"/"⟩ ⟨"/dist"⟩
      [(first, .waiting), (second, .waiting)] found [(first, .written o₁), (second, .written o₂)] w) :
    Builds atRoot Workspace.write bundle ⟨"/"⟩ ⟨"/dist"⟩ found [o₁, o₂] w := by
  have last : (bundle.buildChunk atRoot Workspace.write ⟨"/"⟩ ⟨"/dist"⟩).Gives w [] w := by
    unfold buildChunk
    rw [apart.2.1]
    exact Action.gives_pure.2 ⟨rfl, rfl⟩
  rw [← List.append_nil [o₁, o₂]]
  exact .mk (by rw [files]; exact runs) rfl last

/-- The map of a file that holds one letter, as it is written. -/
def mapOf (name : String) : String :=
  "\x7b\"version\":3,\"sources\":[\"" ++ name ++
    "\"],\"sourcesContent\":[\"A\"],\"names\":[],\"mappings\":\"AAAA\"\x7d"

/-- The output of such a file. -/
def outputWith (name : String) : String :=
  "A" ++ "\n\n" ++ (SourceMap.commentOpening ++ SourceMap.dataOpening ++ Text.Base64.encode (mapOf name).toUTF8)

private theorem render_eq {out : Compiled} {name : String} (code : out.code = "A") (joiner : out.joiner = "\n\n")
    (map : out.map.encode = mapOf name) : out.render = outputWith name := by
  unfold Compiled.render SourceMap.comment outputWith
  rw [code, joiner, map]

private theorem readText_of_write {p : Path} {o : Output} {text : String} (here : w.disk.workingDirectory = [])
    (h : (Workspace.write p text).Gives w o w') : w'.disk.readText p = .ok text :=
  (write_lands (Disk.anchored_of_root here) h).2.2.holds.readText

/-- The first script is compiled first, and its output is written last. -/
def firstLeads : Action Workspace (Compiled × Location × Output × Output) := do
  let out ← bundle.compileOutput atRoot (some [first])
  let text ← bundle.compile atRoot (some [second])
  let o₂ ← Workspace.write (written second) text
  let w ← get
  let o₁ ← Workspace.write (written first) out.render
  return (out, w.disk.workingDirectory, o₁, o₂)

/-- The second script is compiled and written before the first one. -/
def secondLeads : Action Workspace (Compiled × Location × Output × Output) := do
  let text ← bundle.compile atRoot (some [second])
  let o₂ ← Workspace.write (written second) text
  let out ← bundle.compileOutput atRoot (some [first])
  let w ← get
  let o₁ ← Workspace.write (written first) out.render
  return (out, w.disk.workingDirectory, o₁, o₂)

/-- The first script was compiled with the given name in its map, in the root directory. -/
def Named (name : String) (r : Compiled × Location × Output × Output) : Prop :=
  r.1.code = "A" ∧ r.1.joiner = "\n\n" ∧ r.1.map.encode = mapOf name ∧ r.2.1 = []

instance (name : String) (r : Compiled × Location × Output × Output) : Decidable (Named name r) :=
  inferInstanceAs (Decidable (_ ∧ _))

private theorem entries : bundle.isEntry first = true ∧ bundle.isEntry second = true := by
  have entry : ∀ e ∈ bundle.files, bundle.isEntry e = true := fun e he => isEntry_of_mem he
  rwa [files, List.forall_mem_cons, List.forall_mem_singleton] at entry

private theorem builds_first : ∃ outputs w, Builds atRoot Workspace.write bundle ⟨"/"⟩ ⟨"/dist"⟩ found outputs w ∧
    w.disk.readText (written first) = .ok (outputWith "src//a.js") := by
  obtain ⟨r, w₄, given, named⟩ : ∃ r w, firstLeads.Gives found r w ∧ Named "src//a.js" r :=
    ⟨_, _, Action.gives_from found (by decide +kernel), by decide +kernel⟩
  obtain ⟨out, w₁, compiled₁, given⟩ := Action.gives_bind.1 given
  obtain ⟨text, w₂, compiled₂, given⟩ := Action.gives_bind.1 given
  obtain ⟨o₂, w₃, written₂, given⟩ := Action.gives_bind.1 given
  obtain ⟨o₁, w₅, written₁, last⟩ := Action.gives_bind.1 (Action.gives_get_bind.1 given)
  obtain ⟨rfl, rfl⟩ := Action.gives_pure.1 last
  obtain ⟨code, joiner, map, here⟩ := named
  refine ⟨[o₁, o₂], w₅, builds_of_runs ?_, by rw [readText_of_write here written₁, render_eq code joiner map]⟩
  refine (runs_ready [] [(second, .waiting)] entries.1 (gives_compile.2 ⟨out, compiled₁, rfl⟩)).trans ?_
  refine (runs_ready [(first, .ready out.render)] [] entries.2 compiled₂).trans ?_
  exact (runs_written [(first, .ready out.render)] [] written₂).trans (runs_written [] [(second, .written o₂)] written₁)

private theorem builds_second : ∃ outputs w, Builds atRoot Workspace.write bundle ⟨"/"⟩ ⟨"/dist"⟩ found outputs w ∧
    w.disk.readText (written first) = .ok (outputWith "src/a.js") := by
  obtain ⟨r, w₄, given, named⟩ : ∃ r w, secondLeads.Gives found r w ∧ Named "src/a.js" r :=
    ⟨_, _, Action.gives_from found (by decide +kernel), by decide +kernel⟩
  obtain ⟨text, w₁, compiled₂, given⟩ := Action.gives_bind.1 given
  obtain ⟨o₂, w₂, written₂, given⟩ := Action.gives_bind.1 given
  obtain ⟨out, w₃, compiled₁, given⟩ := Action.gives_bind.1 given
  obtain ⟨o₁, w₅, written₁, last⟩ := Action.gives_bind.1 (Action.gives_get_bind.1 given)
  obtain ⟨rfl, rfl⟩ := Action.gives_pure.1 last
  obtain ⟨code, joiner, map, here⟩ := named
  refine ⟨[o₁, o₂], w₅, builds_of_runs ?_, by rw [readText_of_write here written₁, render_eq code joiner map]⟩
  refine (runs_ready [(first, .waiting)] [] entries.2 compiled₂).trans ?_
  refine (runs_written [(first, .waiting)] [] written₂).trans ?_
  refine (runs_ready [] [(second, .written o₂)] entries.1 (gives_compile.2 ⟨out, compiled₁, rfl⟩)).trans ?_
  exact runs_written [] [(second, .written o₂)] written₁

end Chained

/-- Outputs go to different files and to none that is needed. Still, what is written for the first script depends on
which script is compiled first. -/
theorem builds_differ : ∃ b w, Chained.make.Gives Chained.project b w ∧ b.Live ⟨"/"⟩ [] w ∧ w.disk.Anchored ∧
    b.Apart atRoot ⟨"/"⟩ ⟨"/dist"⟩ w ∧ Chained.first ∈ b.targets ∧
    ∃ outputs₁ outputs₂ w₁ w₂ text₁ text₂, Builds atRoot Workspace.write b ⟨"/"⟩ ⟨"/dist"⟩ w outputs₁ w₁ ∧
      Builds atRoot Workspace.write b ⟨"/"⟩ ⟨"/dist"⟩ w outputs₂ w₂ ∧
      w₁.disk.readText (outputPath ⟨"/"⟩ ⟨"/dist"⟩ Chained.first) = .ok text₁ ∧
      w₂.disk.readText (outputPath ⟨"/"⟩ ⟨"/dist"⟩ Chained.first) = .ok text₂ ∧ text₁ ≠ text₂ := by
  obtain ⟨here, -, -, different, outside⟩ := Chained.apart
  have target : Chained.first ∈ Chained.bundle.targets := by
    rw [targets, Chained.files]
    exact List.mem_append_left _ List.mem_cons_self
  obtain ⟨outputs₁, w₁, built₁, read₁⟩ := Chained.builds_first
  obtain ⟨outputs₂, w₂, built₂, read₂⟩ := Chained.builds_second
  exact ⟨Chained.bundle, Chained.found, Chained.made, live_of Chained.made, Disk.anchored_of_root here,
    ⟨different, outside⟩, target, outputs₁, outputs₂, w₁, w₂, _, _, built₁, built₂, read₁, read₂, by decide +kernel⟩

end ScriptBundler.Bundle
