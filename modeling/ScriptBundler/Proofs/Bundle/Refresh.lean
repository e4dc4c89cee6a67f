import ScriptBundler.Proofs.Bundle.Built
import ScriptBundler.Proofs.Glob.Expand
import ScriptBundler.Proofs.Trace.Again
import ScriptBundler.Workspace

/-!
# Bundles found anew

A bundle of a project whose partition is found anew on a changed disk does not see what has become of the imports: its
tracer remembers them. Only the destination is that of the changed disk (`refresh_keeps_partition`). So it is the bundle
that would be made there from nothing exactly if the partition has not changed, for which it is enough that each file
still asks for the files that the tracer remembers.

In `refresh_misses_import` a file is rewritten to ask for a second one, and the bundle does not find it.
-/

namespace ScriptBundler

/-! ### Traces of a project -/

namespace Workspace

variable {α : Type} {w w' : Workspace} {a : α}

private theorem gives_onImports {x : Disk → Action ImportMemory α} :
    (onImports x).Gives w a w' ↔ ∃ m, (x w.disk).Gives w.imports a m ∧ w' = { w with imports := m } := by
  have e : onImports x w = ((x w.disk w.imports).1, { w with imports := (x w.disk w.imports).2 }) := rfl
  unfold Action.Gives
  rw [e]
  rcases x w.disk w.imports with ⟨f | b, m⟩ <;> simp [eq_comm]

/-- The tracer of a project. -/
def tracer (root : Path) (aliases : AliasTable) : ImportTracer := ⟨.of root aliases, true⟩

theorem gives_trace {root : Path} {aliases : AliasTable} {ps : List Path} {fs : List TracedFile} :
    ((collaborators root aliases).trace ps).Gives w fs w' ↔
      ∃ m, ((tracer root aliases).trace w.disk ps).Gives w.imports fs m ∧ w' = { w with imports := m } :=
  gives_onImports (x := fun d => (tracer root aliases).trace d ps)

/-- Traces of a project are given again on another disk, by whoever heeds what is remembered when they end. -/
theorem trace_follows (root : Path) (aliases : AliasTable) (M : ImportMemory) (d : Disk) (ps : List Path) :
    ((collaborators root aliases).trace ps).Follows (·.imports.Within M)
      (fun s => s.disk = d ∧ (tracer root aliases).Heeds M d s.imports) ((collaborators root aliases).trace ps) where
  before h hM := by
    obtain ⟨m, traced, rfl⟩ := gives_trace.1 h
    exact ((tracer root aliases).trace_follows M _ d ps).before traced hM
  again h hM hs := by
    rename_i w fs w' s
    obtain ⟨m, traced, rfl⟩ := gives_trace.1 h
    obtain ⟨rfl, heeds⟩ := hs
    obtain ⟨m', retraced, heeds'⟩ := ((tracer root aliases).trace_follows M _ s.disk ps).again traced hM heeds
    exact ⟨_, gives_trace.2 ⟨m', retraced, rfl⟩, rfl, heeds'⟩

theorem isThere_eq {root : Path} {aliases : AliasTable} (w : Workspace) :
    (collaborators root aliases).isThere w = fun p => w.disk.exists p := rfl

/-- To find a partition does not change the disk. -/
private theorem gives_partition_disk {root : Path} {aliases : AliasTable} {entries : List Path} {option : CommonOption}
    {P : Partition} (h : (Partition.of (collaborators root aliases).trace entries option).Gives w P w') :
    w'.disk = w.disk := by
  have trace_disk : ∀ ps, ((collaborators root aliases).trace ps).Follows (fun w => w.disk = w'.disk)
      (fun _ : Workspace => False) ((collaborators root aliases).trace ps) := by
    refine fun ps => ⟨fun traced disk_eq => ?_, fun _ _ no => no.elim⟩
    obtain ⟨m, -, rfl⟩ := gives_trace.1 traced
    exact disk_eq
  exact ((Partition.follows trace_disk entries option).before h rfl).symm

end Workspace

/-! ### Refreshed bundles -/

namespace Bundle

open Workspace

variable {σ : Type} {c : Collaborators σ} {w w' : σ} {b b' : Bundle}

/-- Patterns without pattern syntax stand for themselves, and so do the names of what exists. -/
theorem expand_literal {d : Disk} {patterns : List String}
    (h : ∀ p ∈ patterns, ¬ Glob.hasMagic p = true ∨ d.exists ⟨p⟩ = true) :
    Glob.expand d patterns = .ok (.ofList (patterns.map Path.mk)) := by
  have literal : ∀ p ∈ patterns, Glob.expandOne d p = .ok [⟨p⟩] := fun p hp => by rw [Glob.expandOne, if_pos (h p hp)]
  have expanded : Glob.expand d (patterns.map fun p => p) = _ := Glob.expand_map literal
  rwa [List.map_id'] at expanded

/-- A bundle of entries without pattern syntax. -/
private theorem gives_of_literal {patterns : List String} {options : Options} {files : List Path}
    (h : ∀ p ∈ patterns, ¬ Glob.hasMagic p = true) (hf : files = (PathSet.ofList (patterns.map Path.mk)).toList) :
    (Bundle.of c patterns options).Gives w b w' ↔ ∃ P, (Partition.of c.trace files options.common).Gives w P w' ∧
      b = ({ options, files } : Bundle).settle P (c.isThere w') := by
  have expanded : (expand c patterns).Gives w files w := by
    refine Action.gives_bind.2 ⟨w, w, Action.gives_get.2 ⟨rfl, rfl⟩, ?_⟩
    rw [expand_literal fun p hp => .inl (h p hp), hf]
    exact Action.gives_pure.2 ⟨rfl, rfl⟩
  unfold Bundle.of
  rw [Action.gives_bind]
  constructor
  · rintro ⟨files', w₁, hfiles, k⟩
    obtain ⟨rfl, rfl⟩ := hfiles.unique expanded
    exact gives_refresh_iff.1 k
  · intro k
    exact ⟨files, w, expanded, gives_refresh_iff.2 k⟩

/-- The partition of a bundle stays the same on every disk, as long as its tracer is not told to forget. The bundle
that would be made anew there is another one if and only if its partition is. -/
theorem refresh_keeps_partition {root : Path} {aliases : AliasTable} {patterns : List String} {options : Options}
    {w w₁ : Workspace} {b : Bundle} (literal : ∀ p ∈ patterns, ¬ Glob.hasMagic p = true)
    (h : (Bundle.of (collaborators root aliases) patterns options).Gives w b w₁) (d : Disk) :
    ∃ b', (∃ w₂, (b.refresh (collaborators root aliases)).Gives { w₁ with disk := d } b' w₂) ∧
      b'.partition = b.partition ∧
      b'.destination = commonDestination? b.files b.options.common d.exists ∧
      (∀ n w₃, (Bundle.of (collaborators root aliases) patterns options).Gives { disk := d } n w₃ →
        (b' = n ↔ b.partition = n.partition)) ∧
      ((tracer root aliases).Heeds w₁.imports d {} →
        ∃ w₃, (Bundle.of (collaborators root aliases) patterns options).Gives { disk := d } b' w₃) := by
  rw [gives_of_literal literal rfl] at h
  obtain ⟨P, made, rfl⟩ := h
  have follows := Partition.follows (trace_follows root aliases w₁.imports d)
    (PathSet.ofList (patterns.map Path.mk)).toList options.common
  -- a memory heeds itself, so the same traces are given on the other disk
  obtain ⟨w₂, again, rfl, -⟩ := follows.again made (.refl _) (s := { w₁ with disk := d })
    ⟨rfl, fun p deps remembered => remembered.needs d⟩
  refine ⟨_, ⟨w₂, gives_refresh_iff.2 ⟨P, again, rfl⟩⟩, rfl, rfl, fun n w₃ made' => ?_, fun heeds => ?_⟩
  · obtain ⟨P', partitioned, rfl⟩ := (gives_of_literal literal rfl).1 made'
    have disk_eq : w₃.disk = w₂.disk := gives_partition_disk (w := { disk := w₂.disk }) partitioned
    constructor
    · intro e
      have partition_eq := congrArg partition e
      exact partition_eq
    · intro e
      have e : P = P' := e
      rw [e, isThere_eq w₂, isThere_eq w₃, disk_eq]
      rfl
  · obtain ⟨w₃, anew, disk_eq, -⟩ := follows.again made (.refl _) (s := { disk := w₂.disk }) ⟨rfl, heeds⟩
    refine ⟨w₃, (gives_of_literal literal rfl).2 ⟨P, anew, ?_⟩⟩
    rw [isThere_eq w₂, isThere_eq w₃, disk_eq]
    rfl

/-- A project with one script that asks for nothing. -/
def lone : Workspace := { disk := .ofScripts [("a.js", "")] }

/-- Its bundle keeps the script even when that is gone. -/
theorem refresh_keeps_partition_lone : (∀ p ∈ ["/a.js"], ¬ Glob.hasMagic p = true) ∧
    ∃ b w₁ b' w₂, (Bundle.of (collaborators ⟨"/"⟩ []) ["/a.js"] {}).Gives lone b w₁ ∧
      (b.refresh (collaborators ⟨"/"⟩ [])).Gives { w₁ with disk := .ofScripts [] } b' w₂ ∧
      b'.partition = b.partition ∧ b.partition.all.map (·.text) = ["/a.js"] := by
  have literal : ∀ p ∈ ["/a.js"], ¬ Glob.hasMagic p = true := by decide +kernel
  have made := Action.gives_from (x := Bundle.of (collaborators ⟨"/"⟩ []) ["/a.js"] {}) lone (by decide +kernel)
  obtain ⟨b', ⟨w₂, refreshed⟩, same, -⟩ := refresh_keeps_partition literal made (.ofScripts [])
  exact ⟨literal, _, _, b', w₂, made, refreshed, same, by decide +kernel⟩

/-- The disk when a second script has been written, and the first one has been rewritten to ask for it. -/
def grown : Except DiskError Disk := do
  (← lone.disk.write ⟨"/b.js"⟩ "".toUTF8).write ⟨"/a.js"⟩ "import './b'".toUTF8

/-- The bundle is found anew without the second script, and is made anew with it. -/
theorem refresh_misses_import : ∃ d b w₁ b' w₂ n w₃, grown = .ok d ∧
    (Bundle.of (collaborators ⟨"/"⟩ []) ["/a.js"] {}).Gives lone b w₁ ∧
    (b.refresh (collaborators ⟨"/"⟩ [])).Gives { w₁ with disk := d } b' w₂ ∧
    (Bundle.of (collaborators ⟨"/"⟩ []) ["/a.js"] {}).Gives { disk := d } n w₃ ∧
    b'.partition.all.map (·.text) = ["/a.js"] ∧ n.partition.all.map (·.text) = ["/b.js", "/a.js"] := by
  have hd : grown = .ok (grown.toOption.getD default) := by
    have h : grown.isOk = true := by decide +kernel
    revert h
    rcases grown with e | d <;> intro h
    · cases h
    · rfl
  refine ⟨_, _, _, _, _, _, _, hd, Action.gives_from lone ?_, Action.gives_from _ ?_, Action.gives_from _ ?_, ?_, ?_⟩
  all_goals decide +kernel

end Bundle

end ScriptBundler
