import ScriptBundler.Proofs.Trace.Again
import ScriptBundler.Proofs.Trace.Truth

/-!
# Calls of one tracer

A tracer is called again and again, and each call leaves something in its memory, whether it fails or not.

* On a disk that does not change, what is left is true, so a trace of several paths is put together from those that new
  tracers make of the single ones (`trace_after_calls`).
* As long as nothing is forgotten, nothing is lost either, so a trace that has succeeded is made again on any disk, and so
  are the traces of the files it lists (`traceOne_after_calls`).
-/

namespace ScriptBundler

/-- What a tracer is called for. -/
inductive Call where
  | trace (ps : List Path)
  | traceOne (p : Path)
  | invalidate (p : Path)

namespace Call

/-- Whether a call makes the tracer forget. -/
def forgets : Call → Bool
  | invalidate _ => true
  | _ => false

/-- All that is to be traced is spelled plainly. -/
def Plain : Call → Prop
  | trace ps => ∀ p ∈ ps, p.Plain
  | traceOne p => p.Plain
  | invalidate _ => True

instance : DecidablePred Plain
  | trace ps => inferInstanceAs (Decidable (∀ p ∈ ps, p.Plain))
  | traceOne p => inferInstanceAs (Decidable p.Plain)
  | invalidate _ => inferInstanceAs (Decidable True)

end Call

namespace ImportTracer

variable {t : ImportTracer} {d : Disk} {m m' M : ImportMemory} {p : Path} {ps : List Path} {c : Call}

/-- What is remembered after a call, failed or not. -/
def call (t : ImportTracer) (d : Disk) (m : ImportMemory) : Call → ImportMemory
  | .trace ps => (t.trace d ps m).2
  | .traceOne p => (t.traceOne d p m).2
  | .invalidate p => invalidate p m

/-- What is remembered after calls, each on a disk of its own. -/
def after (t : ImportTracer) (m : ImportMemory) (calls : List (Disk × Call)) : ImportMemory :=
  calls.foldl (fun m (d, c) => t.call d m c) m

/-! ### What calls keep -/

section Keeps

variable {I : ImportMemory → Prop} (h : ∀ p, (t.dependencies d p).Keeps I)

include h

/-- What is kept when a file is asked for is kept when it is visited. -/
private theorem visit_keeps (n : Nat) (w : Walk) (p : Path) : (t.visit d n w p).Keeps I := by
  induction n generalizing w p with
  | zero => exact .pure w
  | succ n ih =>
    rw [visit_succ]
    split
    · exact .pure w
    · exact (h p).bind fun deps =>
        (Action.Keeps.foldlM ih deps (w.enter p)).bind fun w => .pure (w.leave p deps)

theorem traceOne_keeps : (t.traceOne d p).Keeps I := by
  intro m hm
  rw [traceOne_apply]
  exact visit_keeps h _ {} p m hm

theorem trace_keeps : (t.trace d ps).Keeps I :=
  (Action.Keeps.mapM (fun _ => traceOne_keeps h) ps).bind fun found => .pure found.flatten

end Keeps

/-! ### Calls on one disk -/

private theorem domain_plain (hd : d.Grounded) : t.Domain d Path.Plain := domain_of_direct hd Path.Direct.plain id

private theorem Truthful.call (hd : d.Grounded) (h : t.Truthful d Path.Plain [] m) (hc : c.Plain) :
    t.Truthful d Path.Plain [] (t.call d m c) := by
  cases c with
  | trace ps => exact (trace_yields (domain_plain hd) hc).keeps m h
  | traceOne p => exact (traceOne_yields (domain_plain hd) hc).keeps m h
  | invalidate p => exact h.invalidate p

private theorem Truthful.after (hd : d.Grounded) (h : t.Truthful d Path.Plain [] m) {calls : List Call}
    (hc : ∀ c ∈ calls, c.Plain) : t.Truthful d Path.Plain [] (t.after m (calls.map (d, ·))) := by
  induction calls generalizing m with
  | nil => exact h
  | cons c calls ih =>
    rw [List.forall_mem_cons] at hc
    exact ih (h.call hd hc.1) hc.2

/-- After any calls on a disk, a trace of several paths is put together from those that new tracers make of the single
ones, up to the first that fails. -/
theorem trace_after_calls (hd : d.Grounded) {calls : List Call} (hc : ∀ c ∈ calls, c.Plain) (hp : ∀ p ∈ ps, p.Plain) :
    (t.trace d ps (t.after {} (calls.map (d, ·)))).1 =
      (ps.mapM fun p => (t.traceOne d p {}).1).map List.flatten :=
  (trace_yields (domain_plain hd) hp _ (truthful_empty.after hd hc)).1

/-- Two scripts that ask for each other, and a third one that asks for one of them and for a script with an error. -/
def tangle : Disk := .ofScripts [("a.js", "import './b.js'"), ("b.js", "import './a.js'"),
  ("c.js", "import './b.js'; import './x.js'"), ("x.js", ")")]

/-- A trace that fails in its middle, and what is done about it. -/
def attempts : List Call := [.trace [⟨"/c.js"⟩, ⟨"/a.js"⟩], .invalidate ⟨"/x.js"⟩, .invalidate ⟨"/a.js"⟩]

/-- The two scripts are traced one after the other as if by two tracers. -/
theorem trace_after_calls_tangle : tangle.Grounded ∧ (∀ c ∈ attempts, c.Plain) ∧
    (unaliased.trace tangle [⟨"/c.js"⟩, ⟨"/a.js"⟩] {}).1.isOk = false ∧
    ∃ found, (unaliased.trace tangle [⟨"/b.js"⟩, ⟨"/a.js"⟩] (unaliased.after {} (attempts.map (tangle, ·)))).1 = found ∧
      found = ([⟨"/b.js"⟩, ⟨"/a.js"⟩].mapM fun p => (unaliased.traceOne tangle p {}).1).map List.flatten ∧
      found.toOption.map (·.map (·.path.text)) = some ["/a.js", "/b.js", "/b.js", "/a.js"] := by
  have grounded : tangle.Grounded := nofun
  have plain : ∀ c ∈ attempts, c.Plain := by decide +kernel
  have plain_paths : ∀ p ∈ [(⟨"/b.js"⟩ : Path), ⟨"/a.js"⟩], p.Plain := by decide +kernel
  refine ⟨grounded, plain, by decide +kernel, _, rfl, trace_after_calls grounded plain plain_paths, ?_⟩
  decide +kernel

/-! ### Calls on changing disks -/

private theorem dependencies_within : (t.dependencies d p).Keeps M.Within := by
  intro m hm
  obtain ⟨m', e, learns, -⟩ := t.dependencies_eq d p m
  rw [e]
  exact hm.trans learns.within

theorem traceOne_within : (t.traceOne d p).Keeps M.Within := traceOne_keeps fun _ => dependencies_within

private theorem trace_within : (t.trace d ps).Keeps M.Within := trace_keeps fun _ => dependencies_within

private theorem call_within (hc : ¬ c.forgets = true) : m.Within (t.call d m c) := by
  cases c with
  | trace ps => exact trace_within m (.refl m)
  | traceOne p => exact traceOne_within m (.refl m)
  | invalidate p => exact absurd rfl hc

/-- Calls that forget nothing lose nothing. -/
private theorem after_within {calls : List (Disk × Call)} (hc : ∀ e ∈ calls, ¬ e.2.forgets = true) :
    m.Within (t.after m calls) := by
  induction calls generalizing m with
  | nil => exact .refl m
  | cons e calls ih =>
    rw [List.forall_mem_cons] at hc
    exact (call_within hc.1).trans (ih hc.2)

/-- What a trace has listed is remembered, with the dependencies of the graph that the list describes. -/
theorem Visits.recalls {w : Walk} (h : t.Visits d [p] {} m w m') (hM : m'.Within M) :
    t.Recalls (graphOf w.files) (fun q => ∃ f ∈ w.files, (f.path == q) = true) M := by
  obtain ⟨new, l⟩ := h.exists_lists
  obtain rfl : w.files = new := l.files
  rintro q ⟨f, hf, e⟩
  have dependencies_eq : (graphOf w.files).dependencies q = f.dependencies := by
    rw [← Graph.dependencies_congr e, h.exists_adds.1 f hf]
  rw [dependencies_eq]
  exact ⟨((l.remembers f hf).congr e).mono hM, h.closed f hf⟩

/-- A trace that has succeeded is made again after any calls that forget nothing, whatever has become of the disk. From
each file that it lists, the files are traced that a walk of its own list finds. -/
theorem traceOne_after_calls {files : List TracedFile} (h : (t.traceOne d p).Gives m files m')
    {calls : List (Disk × Call)} (hc : ∀ e ∈ calls, ¬ e.2.forgets = true) (d' : Disk) :
    (t.traceOne d' p).Gives (t.after m' calls) files (t.after m' calls) ∧
      ∀ f ∈ files, (t.traceOne d' f.path).Gives (t.after m' calls) ((graphOf files).walk f.path) (t.after m' calls) := by
  obtain ⟨w, visits, rfl⟩ := gives_traceOne.1 h
  have hM : m'.Within (t.after m' calls) := after_within hc
  have recalls := visits.recalls hM
  have listed : ∀ f ∈ w.files, (t.traceOne d' f.path).Gives (t.after m' calls) ((graphOf w.files).walk f.path)
      (t.after m' calls) := fun f hf => recalls.traceOne d' ⟨f, hf, BEq.rfl⟩
  refine ⟨?_, listed⟩
  -- the path itself is listed last, and its walk can only be the list
  obtain ⟨front, deps, e⟩ := visits.last
  have again := listed ⟨p, deps⟩ (by rw [e]; simp)
  obtain ⟨new, l⟩ := visits.exists_lists
  obtain ⟨m₁, visits'⟩ := visits.transfer d' (t.after m' calls) fun new' hnew f hf => by
    obtain rfl : new' = new := List.append_cancel_left (hnew.symm.trans l.files)
    exact ((l.remembers f hf).mono hM).needs d'
  have same := gives_traceOne.2 ⟨w, visits', rfl⟩
  obtain ⟨-, rfl⟩ := same.unique again
  exact same

/-- The scripts are traced again when all of them are gone, after another trace on the disk without them. -/
theorem traceOne_after_calls_tangle : ∃ files m, (unaliased.traceOne tangle ⟨"/a.js"⟩).Gives {} files m ∧
    files.map (fun f => (f.path.text, f.dependencies.map (·.text))) = [("/b.js", ["/a.js"]), ("/a.js", ["/b.js"])] ∧
    (∀ e ∈ [(Disk.ofScripts [], Call.trace [⟨"/a.js"⟩, ⟨"/c.js"⟩])], ¬ e.2.forgets = true) ∧
    ∃ m', m' = unaliased.after m [(Disk.ofScripts [], Call.trace [⟨"/a.js"⟩, ⟨"/c.js"⟩])] ∧
      (unaliased.traceOne (.ofScripts []) ⟨"/a.js"⟩).Gives m' files m' ∧
      (unaliased.traceOne (.ofScripts []) ⟨"/b.js"⟩).Gives m' ((graphOf files).walk ⟨"/b.js"⟩) m' ∧
      ((graphOf files).walk ⟨"/b.js"⟩).map (·.path.text) = ["/a.js", "/b.js"] ∧
      (unaliased.traceOne (.ofScripts []) ⟨"/a.js"⟩ {}).1.isOk = false := by
  have traced := Action.gives_from (x := unaliased.traceOne tangle ⟨"/a.js"⟩) {} (by decide +kernel)
  have keeps : ∀ e ∈ [(Disk.ofScripts [], Call.trace [⟨"/a.js"⟩, ⟨"/c.js"⟩])], ¬ e.2.forgets = true := by decide
  obtain ⟨again, from_listed⟩ := traceOne_after_calls traced keeps (.ofScripts [])
  obtain ⟨f, hf, e⟩ : ∃ f ∈ ((unaliased.traceOne tangle ⟨"/a.js"⟩ {}).1.toOption.getD default), f.path.text = "/b.js" := by
    decide +kernel
  have path_eq : f.path = ⟨"/b.js"⟩ := congrArg Path.mk e
  refine ⟨_, _, traced, ?_, keeps, _, rfl, again, path_eq ▸ from_listed f hf, ?_, ?_⟩
  all_goals decide +kernel

end ImportTracer

end ScriptBundler
