import ScriptBundler.Proofs.Bundle.Output
import ScriptBundler.Proofs.Bundle.Refresh
import ScriptBundler.Proofs.Trace.Calls

/-!
# Bundles that are alive

A bundle is alive in a workspace if nothing has been forgotten there since it was found. The traces of its entries are
fixed then: they are given in the same way from now on, whatever becomes of the disk (`Live.gives_trace`).
-/

namespace ScriptBundler

/-- To trace one path is to trace it alone. -/
private theorem ImportTracer.gives_trace_single {t : ImportTracer} {d : Disk} {p : Path} {m m' : ImportMemory}
    {fs : List TracedFile} : (t.trace d [p]).Gives m fs m' ↔ (t.traceOne d p).Gives m fs m' := by
  unfold trace
  rw [List.mapM_cons, List.mapM_nil]
  simp only [Action.gives_bind, Action.gives_pure]
  constructor
  · rintro ⟨lists, m₁, ⟨fs', m₂, one, none, m₃, ⟨rfl, rfl⟩, rfl, rfl⟩, rfl, rfl⟩
    simpa using one
  · intro one
    exact ⟨[fs], m', ⟨fs, m', one, [], m', ⟨rfl, rfl⟩, rfl, rfl⟩, by simp, rfl⟩

namespace Bundle

open Workspace

variable {root : Path} {aliases : AliasTable} {b : Bundle} {w w' : Workspace} {e : Path}

/-- The bundle was found, or found anew, in a workspace of which nothing has been forgotten since. -/
def Live (root : Path) (aliases : AliasTable) (b : Bundle) (w : Workspace) : Prop :=
  ∃ b₀ w₀ w₁, (refresh (collaborators root aliases) b₀).Gives w₀ b w₁ ∧ w₁.imports.Within w.imports

theorem live_of {patterns : List String} {options : Options}
    (h : (Bundle.of (collaborators root aliases) patterns options).Gives w b w') : b.Live root aliases w' := by
  obtain ⟨files, w₁, -, refreshed⟩ := Action.gives_bind.1 h
  exact ⟨_, _, _, refreshed, .refl _⟩

/-- Each entry has been traced, and what was found is still remembered. -/
private theorem Live.exists_traced (h : b.Live root aliases w) (he : e ∈ b.files) : ∃ d m fs m',
    ((tracer root aliases).traceOne d e).Gives m fs m' ∧ m'.Within w.imports := by
  obtain ⟨b₀, w₀, w₁, refreshed, within⟩ := h
  obtain ⟨P, partitioned, rfl⟩ := gives_refresh_iff.1 refreshed
  obtain ⟨⟨all, w₂, traced, -, closed⟩, -⟩ := Partition.gives_of partitioned
  -- the closure of the files that come twice only adds to what is remembered
  have within₂ : w₂.imports.Within w.imports :=
    (closure_follows (trace_follows root aliases w.imports w₀.disk) _).before closed within
  obtain ⟨m, tracing, rfl⟩ := gives_trace.1 traced
  obtain ⟨lists, m', each, last⟩ := Action.gives_bind.1 tracing
  obtain ⟨-, rfl⟩ := Action.gives_pure.1 last
  obtain ⟨-, each⟩ := Action.gives_mapM_back (J := (·.Within w.imports))
    (fun p _ _ _ => ((tracer root aliases).traceOne_follows w.imports w₀.disk w₀.disk p).before) each within₂
  obtain ⟨fs, -, m₁, m₂, traced, within⟩ := Action.exists_of_forall₂ each he
  exact ⟨w₀.disk, m₁, fs, m₂, traced, within⟩

/-- A trace that is remembered is given on every disk. -/
theorem Live.gives_trace (h : b.Live root aliases w) (he : e ∈ b.files) : ∃ fs, ∀ w' : Workspace,
    w.imports.Within w'.imports → ∃ m, ((collaborators root aliases).trace [e]).Gives w' fs { w' with imports := m } ∧
      w'.imports.Within m := by
  obtain ⟨d, m, fs, m', traced, within⟩ := h.exists_traced he
  refine ⟨fs, fun w' k => ?_⟩
  have heeds : (tracer root aliases).Heeds w.imports w'.disk w'.imports :=
    fun p deps remembered => (remembered.mono k).needs w'.disk
  obtain ⟨m₁, again, -⟩ := ((tracer root aliases).traceOne_follows w.imports d w'.disk e).again traced within heeds
  have within' := ImportTracer.traceOne_within (t := tracer root aliases) (d := w'.disk) (p := e) w'.imports (.refl _)
  refine ⟨m₁, Workspace.gives_trace.2 ⟨m₁, ImportTracer.gives_trace_single.2 again, rfl⟩, ?_⟩
  have ends : (tracer root aliases).traceOne w'.disk e w'.imports = (.ok fs, m₁) := again
  rwa [ends] at within'

/-- A spelling of an entry is traced from memory, and nothing is added to that. -/
theorem Live.recalls (h : b.Live root aliases w) {p : Path} (hp : b.isEntry p = true) : ∃ fs, ∀ w' : Workspace,
    w.imports.Within w'.imports → ((collaborators root aliases).trace [p]).Gives w' fs w' := by
  obtain ⟨e, he, same⟩ := List.any_eq_true.1 hp
  obtain ⟨d, m, fs, m', traced, within⟩ := h.exists_traced he
  obtain ⟨v, visits, -⟩ := ImportTracer.gives_traceOne.1 traced
  obtain ⟨front, deps, last⟩ := visits.last
  have listed : ∃ f ∈ v.files, (f.path == p) = true := ⟨⟨e, deps⟩, by rw [last]; simp, same⟩
  refine ⟨(ImportTracer.graphOf v.files).walk p, fun w' k => ?_⟩
  have again := (visits.recalls (within.trans k)).traceOne w'.disk listed
  exact Workspace.gives_trace.2 ⟨w'.imports, ImportTracer.gives_trace_single.2 again, rfl⟩

end Bundle

end ScriptBundler
