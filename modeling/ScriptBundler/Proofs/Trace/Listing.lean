import ScriptBundler.Proofs.Trace.Visit

/-!
# Traces of imports list what a file leads to

A trace of a single file ends for every disk and every memory: a visit that is not bounded in its depth ends the same
way (`traceOne_listing`). If it does not fail, it is a `Listing`: it holds each file that the path leads to, each once,
the path itself last, and each behind the files it asks for unless they lead back to it.

A visit of imports is a walk of the graph that its own list describes (`Visits.adds`), so what is known of such walks
holds of it.
-/

namespace ScriptBundler.ImportTracer

variable {t : ImportTracer} {d : Disk} {m m' : ImportMemory} {w w₁ w' : Walk} {p q x : Path} {ps deps : List Path}
  {files : List TracedFile} {g : Graph}

/-- Imports lead from one file to another, as they are answered for with the memory `m`. How the other file is spelled
does not matter. -/
inductive Reaches (t : ImportTracer) (d : Disk) (m : ImportMemory) : Path → Path → Prop where
  | here {p q : Path} (h : (p == q) = true) : Reaches t d m p q
  | step {p x q : Path} {deps : List Path} {m' : ImportMemory} (h : (t.dependencies d p).Gives m deps m') (hx : x ∈ deps)
    (k : Reaches t d m x q) : Reaches t d m p q

/-! ### Visits as walks of a graph -/

/-- The walk of a graph has seen and listed the same files. -/
def Views (w : Walk) (v : Graph.Walk) : Prop := v.files = w.files ∧ ∀ q, v.seen.contains q = true ↔ w.sees q = true

theorem views_enter {v : Graph.Walk} (h : Views w v) : Views (w.enter p) { v with seen := v.seen.insert p } := by
  refine ⟨h.1, fun q => ?_⟩
  rw [PathSet.contains_insert, h.2, Walk.sees_enter]

theorem views_leave {v : Graph.Walk} (h : Views w v) (hp : w.sees p = true) :
    Views (w.leave p deps) { v with files := v.files ++ [⟨p, deps⟩] } := by
  refine ⟨?_, fun q => ?_⟩
  · show v.files ++ _ = w.files ++ _
    rw [h.1]
  · rw [Walk.sees_leave hp]
    exact h.2 q

/-- If a graph has the dependencies that a visit lists, then the visit is one of the graph. -/
theorem Visits.adds (h : t.Visits d ps w m w' m') {v : Graph.Walk} (hv : Views w v)
    (hg : ∀ f ∈ w'.files, g.dependencies f.path = f.dependencies) : ∃ v' new, Views w' v' ∧ g.Adds ps v v' new := by
  induction h generalizing v with
  | none => exact ⟨v, [], hv, .none v⟩
  | again seen _ ih =>
    obtain ⟨v', new, hv', adds⟩ := ih hv hg
    have first : g.Adds [_] v v [] := .again ((hv.2 _).2 seen)
    exact ⟨v', new, hv', first.append adds⟩
  | listed unseen e inner k ih₁ ih₂ =>
    rename_i p ps deps w w₁ w' m m₁ m₂ m'
    have hp : w₁.sees p = true := inner.sees_entered
    obtain ⟨rest, l⟩ := k.exists_lists
    have files_eq : w'.files = w₁.files ++ [⟨p, deps⟩] ++ rest := l.files
    have listed : ∀ f ∈ w₁.files ++ [⟨p, deps⟩], f ∈ w'.files := by
      intro f hf
      rw [files_eq]
      exact List.mem_append_left _ hf
    have deps_eq : g.dependencies p = deps := hg ⟨p, deps⟩ (listed _ (List.mem_append_right _ (List.mem_singleton.2 rfl)))
    -- the graph has the dependencies of `p`, so it visits the same files below `p`
    obtain ⟨v₁, new₁, hv₁, adds₁⟩ := ih₁ (views_enter hv) fun f hf => hg f (listed f (List.mem_append_left _ hf))
    rw [← deps_eq] at adds₁
    have first := adds₁.leave (mt (hv.2 p).1 unseen)
    rw [deps_eq] at first
    obtain ⟨v', new₂, hv', adds₂⟩ := ih₂ (views_leave hv₁ hp) hg
    exact ⟨v', _, hv', first.append adds₂⟩

/-! ### The graph of a list -/

/-- The graph of the dependencies that files have. -/
def graphOf (files : List TracedFile) : Graph := { rows := files.map fun f => (f.path.components, f.dependencies) }

private theorem graphOf_dependencies
    (h : ∀ f ∈ files, ∀ f' ∈ files, (f.path == f'.path) = true → f.dependencies = f'.dependencies) {f : TracedFile}
    (hf : f ∈ files) : (graphOf files).dependencies f.path = f.dependencies := by
  unfold graphOf Graph.dependencies PathTable.get?
  induction files with
  | nil => cases hf
  | cons f' files ih =>
    simp only [List.map_cons, List.lookup_cons]
    by_cases e : f.path.components = f'.path.components
    · rw [e, BEq.rfl]
      exact (h f hf f' List.mem_cons_self (Path.beq_iff.2 e)).symm
    · rw [beq_eq_false_iff_ne.2 e]
      have hf' : f ∈ files := (List.mem_cons.1 hf).resolve_left fun k => e (by rw [k])
      exact ih (fun a ha b hb => h a (List.mem_cons_of_mem _ ha) b (List.mem_cons_of_mem _ hb)) hf'

/-- What is remembered of a file is one answer, so a list of what is remembered describes one graph. -/
theorem graphOf_of_remembers (h : ∀ f ∈ files, t.Remembers m f.path f.dependencies) (d : Disk) :
    ∀ f ∈ files, (graphOf files).dependencies f.path = f.dependencies := fun _ hf =>
  graphOf_dependencies (fun f hf f' hf' e => ((((h f hf).congr e).gives d).unique ((h f' hf').gives d)).1) hf

/-- If all files that are asked for are listed, the graph of a list leads where imports lead. -/
private theorem graphOf_reaches (hm : ∀ f ∈ files, t.Remembers m f.path f.dependencies)
    (hg : ∀ f ∈ files, (graphOf files).dependencies f.path = f.dependencies)
    (closed : ∀ f ∈ files, ∀ x ∈ f.dependencies, ∃ f' ∈ files, (f'.path == x) = true)
    (hp : ∃ f ∈ files, (f.path == p) = true) : (graphOf files).Reaches p q ↔ t.Reaches d m p q := by
  constructor
  · intro h
    induction h with
    | here e => exact .here e
    | step hx _ ih =>
      obtain ⟨f, hf, e⟩ := hp
      rw [← Graph.dependencies_congr e, hg f hf] at hx
      exact .step (((hm f hf).congr e).gives d) hx (ih (closed f hf _ hx))
  · intro h
    induction h with
    | here e => exact .here e
    | step h hx _ ih =>
      obtain ⟨f, hf, e⟩ := hp
      obtain ⟨rfl, -⟩ := h.unique (((hm f hf).congr e).gives d)
      refine .step ?_ (ih (closed f hf _ hx))
      rwa [← Graph.dependencies_congr e, hg f hf]

/-! ### Listings -/

/-- The files that a path leads to, in the order of a trace that begins with the memory `m` and ends with `m'`. -/
structure Listing (t : ImportTracer) (d : Disk) (m m' : ImportMemory) (p : Path) (files : List TracedFile) : Prop where
  /-- The files of each file are those it asks for. -/
  answers : ∀ f ∈ files, (t.dependencies d f.path m).1 = .ok f.dependencies
  complete : ∀ q, (∃ f ∈ files, (f.path == q) = true) ↔ t.Reaches d m' p q
  distinct : files.Pairwise fun a b => ¬ (a.path == b.path) = true
  last : ∃ front deps, files = front ++ [⟨p, deps⟩]
  ordered : ∀ front f rest, files = front ++ f :: rest → ∀ x ∈ f.dependencies,
    (∃ f' ∈ front, (f'.path == x) = true) ∨ t.Reaches d m' x f.path

theorem Visits.last (h : t.Visits d [p] {} m w m') : ∃ front deps, w.files = front ++ [⟨p, deps⟩] := by
  cases h with
  | again seen => cases seen
  | listed _ _ _ k =>
    cases k
    exact ⟨_, _, rfl⟩

/-- A trace describes a graph, and it is what a walk of that graph adds. -/
theorem Visits.exists_adds (h : t.Visits d [p] {} m w m') :
    (∀ f ∈ w.files, (graphOf w.files).dependencies f.path = f.dependencies) ∧
      ∃ v, (graphOf w.files).Adds [p] {} v w.files := by
  obtain ⟨new, l⟩ := h.exists_lists
  obtain rfl : w.files = new := l.files
  have hg := graphOf_of_remembers l.remembers d
  obtain ⟨v, new, hv, adds⟩ := h.adds (v := {}) ⟨rfl, by simp [Walk.sees]⟩ hg
  obtain rfl : w.files = new := hv.1.symm.trans adds.files
  exact ⟨hg, v, adds⟩

/-- All files that are asked for are listed. -/
theorem Visits.closed (h : t.Visits d [p] {} m w m') :
    ∀ f ∈ w.files, ∀ x ∈ f.dependencies, ∃ f' ∈ w.files, (f'.path == x) = true := by
  obtain ⟨-, v, adds⟩ := h.exists_adds
  exact fun f hf x hx => ((adds.seen x).1 (adds.closed f hf x hx)).resolve_left (by simp)

private theorem Visits.listing (h : t.Visits d [p] {} m w m') : t.Listing d m m' p w.files := by
  obtain ⟨new, l⟩ := h.exists_lists
  obtain rfl : w.files = new := l.files
  obtain ⟨hg, v, adds⟩ := h.exists_adds
  have closed := h.closed
  have reaches_iff : ∀ {x q}, (∃ f ∈ w.files, (f.path == x) = true) →
      ((graphOf w.files).Reaches x q ↔ t.Reaches d m' x q) := fun hx => graphOf_reaches l.remembers hg closed hx
  have last := h.last
  refine ⟨fun f hf => ?_, fun q => ?_, adds.distinct, last, fun front f rest e x hx => ?_⟩
  · obtain ⟨m₁, eq, -, -⟩ := t.dependencies_eq d f.path m
    rw [eq, l.needs f hf]
  · obtain ⟨front, deps, e⟩ := last
    rw [adds.exists_mem, reaches_iff ⟨⟨p, deps⟩, by rw [e]; simp, BEq.rfl⟩]
  · have hf : f ∈ w.files := by
      rw [e]
      exact List.mem_append_right _ List.mem_cons_self
    have ordered := Graph.orderedAfter_empty.1 adds.ordered
    have split : w.files.map (·.path) = front.map (·.path) ++ f.path :: rest.map (·.path) := by
      rw [e, List.map_append, List.map_cons]
    rw [← hg f hf] at hx
    rcases ordered _ _ _ split x hx with ⟨q, hq, hqx⟩ | back
    · obtain ⟨f', hf', rfl⟩ := List.mem_map.1 hq
      exact .inl ⟨f', hf', hqx⟩
    · rw [hg f hf] at hx
      exact .inr ((reaches_iff (closed f hf x hx)).1 back)

/-- A trace of a path ends as a visit without a bound does, and lists what the path leads to unless it fails. -/
theorem traceOne_listing (t : ImportTracer) (d : Disk) (p : Path) (m : ImportMemory) :
    (∃ w m', t.Visits d [p] {} m w m' ∧ (t.traceOne d p).Gives m w.files m' ∧ t.Listing d m m' p w.files) ∨
      ∃ f m', t.Fails d [p] {} m f m' ∧ (t.traceOne d p).Refuses m f m' := by
  obtain ⟨⟨f | w, m'⟩, ends, e⟩ := t.traceOne_ends d p m
  · exact .inr ⟨f, m', ends, e⟩
  · exact .inl ⟨w, m', ends, e, Visits.listing ends⟩

end ScriptBundler.ImportTracer

namespace ScriptBundler

/-- A disk with scripts below its root, and what they hold. -/
def Disk.ofScripts (scripts : List (String × String)) : Disk :=
  { workingDirectory := [], nodes := scripts.map fun (name, text) => ([name], .file text.toUTF8 0) }

/-- A tracer of a project without aliases. -/
def ImportTracer.unaliased : ImportTracer := ⟨.of ⟨"/"⟩ [], true⟩

/-- Two scripts that ask for each other. -/
example : (ImportTracer.unaliased.traceOne (.ofScripts [("a.js", "import './b'"), ("b.js", "import './a'")]) ⟨"/a.js"⟩
    {}).1.toOption.map (·.map fun f => (f.path.text, f.dependencies.map (·.text))) =
    some [("/b.js", ["/a.js"]), ("/a.js", ["/b.js"])] := by decide +kernel

end ScriptBundler
