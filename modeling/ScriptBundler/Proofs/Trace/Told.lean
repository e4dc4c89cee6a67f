import ScriptBundler.Proofs.Disk.Change
import ScriptBundler.Proofs.Trace.Listing
import ScriptBundler.Proofs.Trace.Truth

/-!
# Tracers that are told of changes

A file may be written, created or removed, and the tracer is told of it before its next trace. Requests that it remembers
of other files are still what they were, since these are read as before (`loadsOf_of_changes`), and it remembers no
resolutions after it has been told. So it is `Abreast` of the disk again, and traces as a new tracer does (`trace_told`).
-/

namespace ScriptBundler

private theorem Disk.unlinked_ofScripts (scripts : List (String × String)) : (Disk.ofScripts scripts).Unlinked := by
  intro k target e
  cases k with
  | nil => cases e
  | cons name names =>
    obtain ⟨front, rest, rows, -⟩ := List.lookup_eq_some_iff.1 e
    have row : (name :: names, Node.link target) ∈ (Disk.ofScripts scripts).nodes := by
      rw [rows]
      simp
    obtain ⟨script, -, row_eq⟩ := List.mem_map.1 row
    cases row_eq

namespace ImportTracer

variable {t : ImportTracer} {d d' : Disk} {m : ImportMemory} {p q : Path} {ps stale : List Path} {place : Location}

/-- A tracer begins on a disk without links. It traces when it has been told of all files that have changed, and the
changed files are those it has not yet been told of. -/
inductive Told (t : ImportTracer) : Disk → List Path → ImportMemory → Prop
  | new {d : Disk} (unlinked : d.Unlinked) (grounded : d.Grounded) : Told t d [] {}
  | trace {d : Disk} {m : ImportMemory} {ps : List Path} (h : Told t d [] m) (hp : ∀ p ∈ ps, p.Direct) :
    Told t d [] (t.trace d ps m).2
  | traceOne {d : Disk} {m : ImportMemory} {p : Path} (h : Told t d [] m) (hp : p.Direct) :
    Told t d [] (t.traceOne d p m).2
  | write {d d' : Disk} {m : ImportMemory} {changed : List Path} {f : Path} {content : ByteArray}
    (h : Told t d changed m) (hf : f.Direct) (e : d.write f content = .ok d') : Told t d' (f :: changed) m
  | remove {d : Disk} {m : ImportMemory} {changed : List Path} {f : Path} (h : Told t d changed m) (hf : f.Direct)
    (e : d.isFile f = true) : Told t (d.remove f) (f :: changed) m
  | invalidate {d : Disk} {m : ImportMemory} {changed : List Path} (h : Told t d changed m) (p : Path) :
    Told t d (changed.filter (!· == p)) (invalidate p m)

private theorem loadsOf_empty_eq_ok {loads : List Script.Load} :
    loadsOf d {} p = .ok loads ↔ ∃ text, d.readText p = .ok text ∧ requestsOf p text = .ok loads := by
  show (do requestsOf p (← (Attempted.of .disk (d.readText p)).during (.readFile p)) : Attempted _) = _ ↔ _
  rcases d.readText p with f | text
  · exact iff_of_false nofun fun ⟨_, e, _⟩ => nomatch e
  · show requestsOf p text = _ ↔ _
    simp

/-- The requests of another file are read as before. -/
theorem loadsOf_of_changes (h : Disk.Changes place d d') (hd : d.Unlinked) (hq : q.Direct) (apart : q ≠ Disk.pathOf place)
    {loads : List Script.Load} (e : loadsOf d {} q = .ok loads) : loadsOf d' {} q = .ok loads := by
  obtain ⟨k, hk, rfl⟩ := Path.direct_iff.1 hq
  obtain ⟨text, read, requests⟩ := loadsOf_empty_eq_ok.1 e
  have apart : k ≠ place := fun e => apart (by rw [e])
  exact loadsOf_empty_eq_ok.2 ⟨text, h.readText hd hk apart read, requests⟩

/-- There are no links, and what is remembered of direct paths is true, apart from the requests of stale files. -/
structure Abreast (t : ImportTracer) (d : Disk) (stale : List Path) (m : ImportMemory) : Prop where
  unlinked : d.Unlinked
  grounded : d.Grounded
  truthful : t.Truthful d Path.Direct stale m

namespace Abreast

private theorem domain (h : t.Abreast d stale m) : t.Domain d Path.Direct :=
  domain_of_direct h.grounded id Path.Direct.plain

/-- When a file has changed, all else that is remembered of requests is still true. -/
private theorem change (h : t.Abreast d stale m) (c : Disk.Changes place d d') :
    t.Abreast d' (Disk.pathOf place :: stale) m where
  unlinked := c.unlinked
  grounded := c.grounded h.grounded
  truthful := by
    -- where requests lead may be different now, but nothing is promised of that while files are stale
    refine ⟨fun {q loads} hq fresh hl => ?_, nofun⟩
    rw [List.any_cons, Bool.or_eq_true, not_or] at fresh
    have apart : q ≠ Disk.pathOf place := by
      rintro rfl
      exact fresh.1 BEq.rfl
    exact loadsOf_of_changes c h.unlinked hq apart (h.truthful.requests hq fresh.2 hl)

private theorem trace (h : t.Abreast d [] m) (hp : ∀ p ∈ ps, p.Direct) : t.Abreast d [] (t.trace d ps m).2 :=
  ⟨h.unlinked, h.grounded, (trace_yields h.domain hp).keeps m h.truthful⟩

private theorem traceOne (h : t.Abreast d [] m) (hp : p.Direct) : t.Abreast d [] (t.traceOne d p m).2 :=
  ⟨h.unlinked, h.grounded, (traceOne_yields h.domain hp).keeps m h.truthful⟩

end Abreast

/-- A tracer that is told of changes is abreast of its disk, apart from those it has not been told of yet. -/
private theorem Told.abreast (h : t.Told d stale m) : t.Abreast d stale m := by
  induction h with
  | new unlinked grounded => exact ⟨unlinked, grounded, truthful_empty⟩
  | trace _ hp ih => exact ih.trace hp
  | traceOne _ hp ih => exact ih.traceOne hp
  | write _ hf e ih =>
    obtain ⟨place, hplace, rfl⟩ := Path.direct_iff.1 hf
    exact ih.change (Disk.changes_write ih.unlinked hplace e)
  | remove _ hf e ih =>
    obtain ⟨place, hplace, rfl⟩ := Path.direct_iff.1 hf
    exact ih.change (Disk.changes_remove ih.unlinked hplace e)
  | invalidate _ p ih => exact ⟨ih.unlinked, ih.grounded, ih.truthful.invalidate p⟩

/-- A tracer that has been told of all changes traces as a new one does on the disk as it is. -/
theorem trace_told (h : t.Told d [] m) :
    (∀ ps, (∀ p ∈ ps, p.Direct) → (t.trace d ps m).1 = (t.trace d ps {}).1) ∧
      ∀ p, p.Direct → (t.traceOne d p m).1 = (t.traceOne d p {}).1 := by
  have abreast := h.abreast
  refine ⟨fun ps hp => ?_, fun p hp => (traceOne_yields abreast.domain hp m abreast.truthful).1⟩
  have traced := trace_yields (t := t) abreast.domain hp
  rw [(traced m abreast.truthful).1, (traced {} truthful_empty).1]

/-- A script that asks for one that is not there. -/
def lacking : Disk := .ofScripts [("a.js", "import './b.js'")]

/-- The disk when the other script has been written. -/
def complete : Except DiskError Disk := lacking.write ⟨"/b.js"⟩ "import './a.js'".toUTF8

/-- The other script is traced when it has been written, and no longer when it has been removed again. -/
theorem trace_told_lacking : ∃ d m m', complete = .ok d ∧
    (unaliased.trace lacking [⟨"/a.js"⟩] {}).1.toOption.map (·.map (·.path.text)) = some ["/a.js"] ∧
    m = invalidate ⟨"/b.js"⟩ (unaliased.trace lacking [⟨"/a.js"⟩] {}).2 ∧
    (unaliased.trace d [⟨"/a.js"⟩] m).1.toOption.map (·.map (·.path.text)) = some ["/b.js", "/a.js"] ∧
    m' = invalidate ⟨"/b.js"⟩ (unaliased.trace d [⟨"/a.js"⟩] m).2 ∧ unaliased.Told (d.remove ⟨"/b.js"⟩) [] m' ∧
    (unaliased.trace (d.remove ⟨"/b.js"⟩) [⟨"/a.js"⟩] m').1 = (unaliased.trace (d.remove ⟨"/b.js"⟩) [⟨"/a.js"⟩] {}).1 ∧
    (unaliased.trace (d.remove ⟨"/b.js"⟩) [⟨"/a.js"⟩] m').1.toOption.map (·.map (·.path.text)) = some ["/a.js"] := by
  have hd : complete = .ok (complete.toOption.getD default) := Action.eq_ok_of_isOk (by decide +kernel)
  have direct_a : ∀ p ∈ [(⟨"/a.js"⟩ : Path)], p.Direct := by decide +kernel
  have direct_b : (⟨"/b.js"⟩ : Path).Direct := by decide +kernel
  have none_left : [(⟨"/b.js"⟩ : Path)].filter (!· == ⟨"/b.js"⟩) = [] := by simp
  have written := ((Told.trace (.new (t := unaliased) (Disk.unlinked_ofScripts _) nofun) direct_a).write direct_b hd).invalidate
    ⟨"/b.js"⟩
  rw [none_left] at written
  have removed := ((written.trace direct_a).remove direct_b (by decide +kernel)).invalidate ⟨"/b.js"⟩
  rw [none_left] at removed
  refine ⟨_, _, _, hd, ?_, rfl, ?_, rfl, removed, (trace_told removed).1 _ direct_a, ?_⟩
  all_goals decide +kernel

end ImportTracer

end ScriptBundler
