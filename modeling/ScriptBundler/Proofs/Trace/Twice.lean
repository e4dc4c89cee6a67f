import ScriptBundler.Bundle.Compile
import ScriptBundler.Proofs.Disk.Grow
import ScriptBundler.Proofs.Disk.Spelling
import ScriptBundler.Proofs.Trace.Calls
import ScriptBundler.Workspace

/-!
# Files that are listed twice

A tracer tells files apart by their paths. Requests lead to canonical paths, and a file has one of these
(`IsCanonical.eq_canonical`), but the path that is traced is listed as it is spelled. So a trace lists a file under two
paths if and only if one of them is the path that is traced, the other is its canonical path, and the files that it leads
to ask for it under that path (`traceOne_twice_iff`).

In `compileOutput_doubles` a script is asked for under a link to it, and its code is there twice.
-/

namespace ScriptBundler

namespace Disk

variable {d : Disk} {e p q : Path} {k location : Location}

/-- Two paths lead to the same place. -/
def SamePlace (d : Disk) (p q : Path) : Prop := ∃ location, d.locate p = .ok location ∧ d.locate q = .ok location

instance (d : Disk) (p q : Path) : Decidable (d.SamePlace p q) :=
  decidable_of_iff ((d.locate p).toOption.isSome = true ∧ (d.locate p).toOption = (d.locate q).toOption) <| by
    unfold SamePlace
    rcases d.locate p with e | l <;> rcases d.locate q with e' | l' <;> simp [Except.toOption, eq_comm]

private theorem SamePlace.symm (h : d.SamePlace p q) : d.SamePlace q p := by
  obtain ⟨location, hp, hq⟩ := h
  exact ⟨location, hq, hp⟩

/-- The path without links of a file. -/
def IsCanonical (d : Disk) (q : Path) : Prop := ∃ c, d.isFile c = true ∧ canonical d c = q

theorem canonical_of_locate (h : d.locate p = .ok location) : canonical d p = pathOf location := by
  rw [canonical, canonical?, h, Option.getD_some]

/-- The path of a place without links leads there, if anywhere. -/
theorem Clear.locate_pathOf (hc : d.Clear k) (hn : ∀ name ∈ k, IsName name) (e : d.locate (pathOf k) = .ok location) :
    location = k := by
  have way := (locate_iff.1 e).2
  rw [Disk.origin, if_pos (direct_pathOf hn).absolute, names_pathOf hn] at way
  have way := way.behind_blank (.inl rfl)
  split at way
  · rename_i root
    rw [root]
    exact way.stays rfl
  · exact way.eq_append rfl hn hc

namespace IsCanonical

private theorem direct (hd : d.Grounded) (h : d.IsCanonical q) : q.Direct := by
  obtain ⟨c, file, rfl⟩ := h
  exact canonical_direct hd file

/-- The canonical path of a file is that of all paths to the file. -/
theorem eq_canonical (hd : d.Grounded) (ha : d.Anchored) (h : d.IsCanonical q) (same : d.SamePlace p q) :
    q = canonical d p := by
  obtain ⟨c, file, rfl⟩ := h
  obtain ⟨location, hp, hq⟩ := same
  obtain ⟨k, -, -, hk, -, e⟩ := exists_place file
  rw [e] at hq ⊢
  have back : location = k := (ha.clear hk).locate_pathOf (isName_of_locate hd hk) hq
  rw [canonical_of_locate hp, back]

private theorem eq_canonical_of_beq (hd : d.Grounded) (h : d.IsCanonical q) (leads : d.locate e = .ok location)
    (spelled : (q == canonical d e) = true) : q = canonical d e := by
  rw [canonical_of_locate leads] at spelled ⊢
  exact (h.direct hd).plain.eq_of_beq (direct_pathOf (isName_of_locate hd leads)).plain spelled

/-- Of one path and canonical ones, two that lead to the same place are this path and its canonical path. -/
private theorem pair_of_samePlace (hd : d.Grounded) (ha : d.Anchored) (hp : p = e ∨ d.IsCanonical p)
    (hq : q = e ∨ d.IsCanonical q) (apart : ¬ (p == q) = true) (same : d.SamePlace p q) :
    (p = e ∧ q = canonical d e) ∨ (p = canonical d e ∧ q = e) := by
  rcases hp with rfl | hp
  · rcases hq with rfl | hq
    · exact absurd BEq.rfl apart
    · exact .inl ⟨rfl, hq.eq_canonical hd ha same⟩
  · rcases hq with rfl | hq
    · exact .inr ⟨hp.eq_canonical hd ha same.symm, rfl⟩
    · -- both are the canonical path of one of them
      have back : d.SamePlace q q := by
        obtain ⟨location, -, leads⟩ := same
        exact ⟨location, leads, leads⟩
      have p_eq : p = q := (hp.eq_canonical hd ha same.symm).trans (hq.eq_canonical hd ha back).symm
      exact absurd (p_eq ▸ BEq.rfl) apart

end IsCanonical

end Disk

namespace ImportTracer

variable {t : ImportTracer} {d : Disk} {m m' : ImportMemory} {w w' : Walk} {e p q : Path} {r : String} {ps : List Path}
  {files : List TracedFile}

/-! ### Requests lead to canonical paths -/

/-- All requests that are remembered lead to canonical paths. -/
def LeadsToCanonical (d : Disk) (m : ImportMemory) : Prop :=
  ∀ p r q, m.resolutions.get? p r = some (some q) → d.IsCanonical q

private theorem leadsToCanonical_empty : LeadsToCanonical d {} := fun _ _ _ found => nomatch found

private theorem isCanonical_of_target (hm : LeadsToCanonical d m) (h : t.target d m p r = some q) : d.IsCanonical q := by
  unfold target at h
  cases found : m.resolutions.get? p r with
  | none =>
    rw [found, Option.getD_none] at h
    exact Resolver.exists_of_find h
  | some x =>
    rw [found, Option.getD_some] at h
    exact hm p r q (h ▸ found)

private theorem Learns.leadsToCanonical (h : t.Learns d p m m') (hm : LeadsToCanonical d m) : LeadsToCanonical d m' := by
  intro p' r q found
  by_cases same : (p == p') = true
  · -- where a request of the file leads is the same as before, whether it was remembered then or not
    rw [← Resolutions.get?_congr same] at found
    have leads : t.target d m' p r = some q := by rw [ImportTracer.target, found, Option.getD_some]
    rw [h.target] at leads
    exact isCanonical_of_target hm leads
  · rw [h.resolutions same] at found
    exact hm p' r q found

private theorem dependencies_leadsToCanonical (p : Path) : (t.dependencies d p).Keeps (LeadsToCanonical d) := by
  intro m hm
  obtain ⟨m', e, learns, -⟩ := t.dependencies_eq d p m
  rw [e]
  exact learns.leadsToCanonical hm

private theorem after_leadsToCanonical (calls : List Call) (hm : LeadsToCanonical d m) :
    LeadsToCanonical d (t.after m (calls.map (d, ·))) := by
  induction calls generalizing m with
  | nil => exact hm
  | cons c calls ih =>
    refine ih ?_
    cases c with
    | trace ps => exact trace_keeps dependencies_leadsToCanonical m hm
    | traceOne p => exact traceOne_keeps dependencies_leadsToCanonical m hm
    | invalidate p => exact fun _ _ _ found => nomatch found

/-! ### What is listed -/

/-- What is listed was to be visited, or another file that is listed asks for it. -/
private theorem Visits.exists_asking (h : t.Visits d ps w m w' m') : ∃ new, w'.files = w.files ++ new ∧
    ∀ f ∈ new, f.path ∈ ps ∨ ∃ g ∈ new, f.path ∈ g.dependencies := by
  induction h with
  | none => exact ⟨[], (List.append_nil _).symm, nofun⟩
  | again _ _ ih =>
    obtain ⟨new, files_eq, asked⟩ := ih
    exact ⟨new, files_eq, fun f hf => (asked f hf).imp_left (List.mem_cons_of_mem _)⟩
  | listed _ _ _ _ ih₁ ih₂ =>
    rename_i p ps deps w w₁ w' m m₁ m₂ m' _ _ _ _
    obtain ⟨below, files_eq₁, asked₁⟩ := ih₁
    obtain ⟨beside, files_eq₂, asked₂⟩ := ih₂
    refine ⟨below ++ ⟨p, deps⟩ :: beside, ?_, ?_⟩
    · rw [files_eq₂, Walk.leave, files_eq₁, Walk.enter, List.append_assoc, List.append_assoc, List.singleton_append]
    · rw [List.forall_mem_append, List.forall_mem_cons]
      refine ⟨fun f hf => .inr ?_, .inl List.mem_cons_self, fun f hf => ?_⟩
      · -- below a file there are those it asks for, and those they ask for
        rcases asked₁ f hf with here | ⟨g, hg, asks⟩
        · exact ⟨⟨p, deps⟩, List.mem_append_right _ List.mem_cons_self, here⟩
        · exact ⟨g, List.mem_append_left _ hg, asks⟩
      · rcases asked₂ f hf with here | ⟨g, hg, asks⟩
        · exact .inl (List.mem_cons_of_mem _ here)
        · exact .inr ⟨g, List.mem_append_right _ (List.mem_cons_of_mem _ hg), asks⟩

/-- Besides the path that is traced, canonical paths are listed. -/
private theorem Visits.eq_or_isCanonical (hm : LeadsToCanonical d m) (h : t.Visits d [e] {} m w m') :
    ∀ f ∈ w.files, f.path = e ∨ d.IsCanonical f.path := by
  obtain ⟨new, l⟩ := h.exists_lists
  obtain rfl : w.files = new := l.files
  obtain ⟨new, files_eq, asked⟩ := h.exists_asking
  obtain rfl : w.files = new := files_eq
  intro f hf
  rcases asked f hf with here | ⟨g, hg, asks⟩
  · exact .inl (List.mem_singleton.1 here)
  · obtain ⟨r, leads⟩ := exists_target_of_needs (l.needs g hg) asks
    exact .inr (isCanonical_of_target hm leads)

/-- Two paths that are listed and lead to the same place are the path that is traced and its canonical path. So a file is
listed twice exactly if its canonical path is another one, leads there, and is listed. -/
theorem traceOne_twice_iff (hd : d.Grounded) (ha : d.Anchored) {calls : List Call}
    (h : (t.traceOne d e).Gives (t.after {} (calls.map (d, ·))) files m') :
    (∀ f ∈ files, ∀ g ∈ files, ¬ (f.path == g.path) = true → d.SamePlace f.path g.path →
      (f.path = e ∧ g.path = canonical d e) ∨ (f.path = canonical d e ∧ g.path = e)) ∧
    ((∃ f ∈ files, ∃ g ∈ files, ¬ (f.path == g.path) = true ∧ d.SamePlace f.path g.path) ↔
      ¬ (e == canonical d e) = true ∧ d.SamePlace e (canonical d e) ∧ ∃ f ∈ files, (f.path == canonical d e) = true) := by
  obtain ⟨w, visits, rfl⟩ := gives_traceOne.1 h
  have listed := visits.eq_or_isCanonical (after_leadsToCanonical calls leadsToCanonical_empty)
  have pairs : ∀ f ∈ w.files, ∀ g ∈ w.files, ¬ (f.path == g.path) = true → d.SamePlace f.path g.path →
      (f.path = e ∧ g.path = canonical d e) ∨ (f.path = canonical d e ∧ g.path = e) :=
    fun f hf g hg => Disk.IsCanonical.pair_of_samePlace hd ha (listed f hf) (listed g hg)
  refine ⟨pairs, ?_, ?_⟩
  · rintro ⟨f, hf, g, hg, apart, same⟩
    rcases pairs f hf g hg apart same with ⟨f_eq, g_eq⟩ | ⟨f_eq, g_eq⟩
    · rw [f_eq, g_eq] at apart same
      exact ⟨apart, same, g, hg, g_eq ▸ BEq.rfl⟩
    · rw [f_eq, g_eq] at apart same
      exact ⟨fun k => apart (BEq.symm k), same.symm, f, hf, f_eq ▸ BEq.rfl⟩
  · rintro ⟨apart, same, f, hf, spelled⟩
    obtain ⟨front, deps, last⟩ := visits.last
    have other : f.path ≠ e := fun k => apart (k ▸ spelled)
    have f_eq : f.path = canonical d e := by
      obtain ⟨location, leads, -⟩ := same
      exact ((listed f hf).resolve_left other).eq_canonical_of_beq hd leads spelled
    refine ⟨⟨e, deps⟩, by rw [last]; simp, f, hf, ?_⟩
    rw [f_eq]
    exact ⟨apart, same⟩

/-- Two scripts that ask for each other, and a link to one of them. -/
def linked : Disk where
  workingDirectory := []
  nodes := [(["a.js"], .file "import './b'".toUTF8 0), (["b.js"], .file "import './a'".toUTF8 0), (["l.js"], .link "a.js")]

/-- The first script is listed twice if it is traced as the link. -/
theorem traceOne_twice_linked : linked.Grounded ∧ linked.Anchored ∧ ∃ files m,
    (unaliased.traceOne linked ⟨"/l.js"⟩).Gives (unaliased.after {} ([.trace [⟨"/l.js"⟩, ⟨"/a.js"⟩]].map (linked, ·))) files m ∧
    files.map (·.path.text) = ["/a.js", "/b.js", "/l.js"] ∧
    ∃ f ∈ files, ∃ g ∈ files, ¬ (f.path == g.path) = true ∧ linked.SamePlace f.path g.path := by
  have grounded : linked.Grounded := nofun
  have anchored : linked.Anchored := Disk.anchored_of_root rfl
  have traced := Action.gives_from (x := unaliased.traceOne linked ⟨"/l.js"⟩)
    (unaliased.after {} ([.trace [⟨"/l.js"⟩, ⟨"/a.js"⟩]].map (linked, ·))) (by decide +kernel)
  refine ⟨grounded, anchored, _, _, traced, ?_, (traceOne_twice_iff grounded anchored traced).2.2 ⟨?_, ?_, ?_⟩⟩
  all_goals decide +kernel

end ImportTracer

/-- A bundle of the link: the trace of its entry holds the first script as itself and as the link, and so the output has
its code twice. -/
theorem Bundle.compileOutput_doubles : ∃ b w files m out w',
    (Bundle.of (Workspace.collaborators ⟨"/"⟩ []) ["/l.js"] {}).Gives { disk := ImportTracer.linked } b w ∧
    b.files.map (·.text) = ["/l.js"] ∧
    (ImportTracer.unaliased.traceOne ImportTracer.linked ⟨"/l.js"⟩).Gives w.imports files m ∧
    files.map (·.path.text) = ["/a.js", "/b.js", "/l.js"] ∧
    ¬ ((⟨"/a.js"⟩ : Path) == ⟨"/l.js"⟩) = true ∧ ImportTracer.linked.SamePlace ⟨"/a.js"⟩ ⟨"/l.js"⟩ ∧
    (b.compileOutput (Workspace.collaborators ⟨"/"⟩ []) (some [⟨"/l.js"⟩])).Gives w out w' ∧
    out.blocks = ["import './b'", "import './a'", "import './b'"] := by
  refine ⟨_, _, _, _, _, _, Action.gives_from _ ?_, ?_, Action.gives_from _ ?_, ?_, ?_, ?_, Action.gives_from _ ?_, ?_⟩
  all_goals decide +kernel

end ScriptBundler
