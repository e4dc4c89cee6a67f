import ScriptBundler.Proofs.Bundle.Requests
import ScriptBundler.Proofs.Pairs

/-!
# Compilations in pairs

Two requests that are compiled side by side, be it from different worlds or for paths that are spelled differently. As
long as the traces and loads on both sides are alike, so are the lists of files (`workingList_paired`) and what is made
of them (`assemble_paired`).
-/

namespace ScriptBundler

variable {σ : Type} {c : Collaborators σ} {b : Bundle} {S : σ → σ → Prop} {E : Failure → Failure → Prop}
  {Q : Path → Path → Prop} {V : SourceFile → SourceFile → Prop}

/-- The outputs were made of lists of paths that `Q` relates, and of files that `V` relates. -/
structure Compiled.MadeAlike (Q : Path → Path → Prop) (V : SourceFile → SourceFile → Prop) (out out' : Compiled) :
    Prop where
  traced : List.Forall₂ Q out.traced out'.traced
  bundled : List.Forall₂ Q out.bundled out'.bundled
  files : ∃ files files', List.Forall₂ V files files' ∧
    out = .ofFiles files out.traced out.bundled out.joiner ∧ out' = .ofFiles files' out'.traced out'.bundled out.joiner

/-- Files with the same code make outputs with the same code, in which they start on the same lines. -/
theorem Compiled.MadeAlike.code_offsets {out out' : Compiled} (h : out.MadeAlike Q V out')
    (same : ∀ f g, V f g → f.code = g.code) : out.code = out'.code ∧ out.offsets = out'.offsets := by
  obtain ⟨files, files', alike, e, e'⟩ := h.files
  have codes : files.map (·.code) = files'.map (·.code) := by
    rw [← List.forall₂_eq_eq_eq, List.forall₂_map_left_iff, List.forall₂_map_right_iff]
    exact alike.imp fun f g => same f g
  have blocks : out.blocks = out'.blocks := by
    rw [e, e', ofFiles_blocks, ofFiles_blocks, codes]
  have joiner : out.joiner = out'.joiner := by
    rw [e']
    rfl
  constructor
  · rw [code, code, blocks, joiner]
  · -- the offsets of both outputs tell the lines of their blocks
    have ahead (k : Nat) : out.linesAhead k = out'.linesAhead k := by rw [linesAhead, linesAhead, blocks]
    rw [e, e', ofFiles_offsets, ofFiles_offsets, ← e, ← e', alike.length_eq]
    simp only [ahead]

namespace Bundle

theorem isEntry_congr {p q : Path} (h : (p == q) = true) : b.isEntry p = b.isEntry q := by
  unfold isEntry
  congr 1
  funext e
  exact BEq.congr_right h

/-- The common files that stand in front of those of an entry. -/
def carried (b : Bundle) (entry : Path) : List Path := if b.isCarrier entry then b.partition.common.toList else []

private theorem listing_paired (same : ∀ p q, Q p q → (p == q) = true) {p q : Path} {fs gs : List Path}
    (front : List.Forall₂ Q (b.carried p) (b.carried q)) (traced : List.Forall₂ Q fs gs) :
    List.Forall₂ Q (b.listing p fs) (b.listing q gs) := by
  refine List.rel_append front ?_
  split
  · refine List.rel_filter (fun p q h => ?_) traced
    simp only [PathSet.contains_congr (same p q h)]
  · exact traced

private theorem filesOf_paired (same : ∀ p q, Q p q → (p == q) = true) {p q : Path}
    (front : List.Forall₂ Q (b.carried p) (b.carried q))
    (traced : (c.trace [p]).Paired S E (List.Forall₂ fun f g => Q f.path g.path) (c.trace [q])) :
    (b.filesOf c p).Paired S E (List.Forall₂ Q) (b.filesOf c q) := by
  refine traced.bind fun fs gs alike => .pure (listing_paired same front ?_)
  rw [List.forall₂_map_left_iff, List.forall₂_map_right_iff]
  exact alike

/-- Entries that are traced alike, and carry the same files, bring the same files to an output. -/
theorem workingList_paired (same : ∀ p q, Q p q → (p == q) = true) {es es' : List Path} (h : List.Forall₂ (fun p q =>
      Q p q ∧ List.Forall₂ Q (b.carried p) (b.carried q) ∧
        (c.trace [p]).Paired S E (List.Forall₂ fun f g => Q f.path g.path) (c.trace [q])) es es') :
    (b.workingList c es).Paired S E (fun l l' => List.Forall₂ Q l.1 l'.1 ∧ List.Forall₂ Q l.2 l'.2)
      (b.workingList c es') := by
  induction h with
  | nil => exact .pure ⟨.nil, .nil⟩
  | @cons p q es es' hpq _ ih =>
    obtain ⟨pq, front, traced⟩ := hpq
    rw [workingList, workingList, isEntry_congr (same p q pq)]
    split
    · refine (filesOf_paired same front traced).bind fun files files' alike => ih.bind fun l l' rest => ?_
      exact .pure ⟨List.rel_append alike rest.1, .cons pq rest.2⟩
    · exact ih

theorem assembleFrom_paired {traced traced' bundled bundled' ps qs : List Path}
    (load : ∀ p q, Q p q → ((c.load p).during (.loadFile p)).Paired S E V ((c.load q).during (.loadFile q)))
    (emit : ∀ e e' w v, S w v → S (c.emit e w) (c.emit e' v)) (h : List.Forall₂ Q ps qs) (index : Nat) (a a' : Assembly) :
    (assembleFrom c traced bundled index a ps).Paired S E
      (fun r r' => ∃ files files', List.Forall₂ V files files' ∧ r = files.foldl Assembly.add a ∧
        r' = files'.foldl Assembly.add a') (assembleFrom c traced' bundled' index a' qs) := by
  induction h generalizing index a a' with
  | nil => exact .pure ⟨[], [], .nil, rfl, rfl⟩
  | @cons p q ps qs pq _ ih =>
    refine (load p q pq).bind fun f g fg => (Action.Paired.modify (emit _ _)).bind fun _ _ _ => ?_
    intro w v hs
    obtain ⟨alike, hs'⟩ := ih (index + 1) (a.add f) (a'.add g) w v hs
    refine ⟨alike.mono ?_, hs'⟩
    rintro _ _ ⟨files, files', rest, rfl, rfl⟩
    exact ⟨f :: files, g :: files', .cons fg rest, rfl, rfl⟩

/-- Files that are loaded alike make outputs alike. -/
theorem assemble_paired {traced traced' bundled bundled' : List Path}
    (load : ∀ p q, Q p q → ((c.load p).during (.loadFile p)).Paired S E V ((c.load q).during (.loadFile q)))
    (emit : ∀ e e' w v, S w v → S (c.emit e w) (c.emit e' v)) (ht : List.Forall₂ Q traced traced')
    (hb : List.Forall₂ Q bundled bundled') : (b.assemble c traced bundled).Paired S E (Compiled.MadeAlike Q V)
      (b.assemble c traced' bundled') := by
  refine (assembleFrom_paired load emit ht 0 {} {}).bind ?_
  rintro _ _ ⟨files, files', alike, rfl, rfl⟩
  exact .pure ⟨ht, hb, files, files', alike, rfl, rfl⟩

/-- Entries that are traced alike, and whose files are loaded alike, have outputs alike. -/
theorem compileOutput_paired (same : ∀ p q, Q p q → (p == q) = true)
    (load : ∀ p q, Q p q → ((c.load p).during (.loadFile p)).Paired S E V ((c.load q).during (.loadFile q)))
    (emit : ∀ e e' w v, S w v → S (c.emit e w) (c.emit e' v)) {es es' : List Path} (entries : ∀ e ∈ es, b.isEntry e = true)
    (h : List.Forall₂ (fun p q => Q p q ∧ List.Forall₂ Q (b.carried p) (b.carried q) ∧
      (c.trace [p]).Paired S E (List.Forall₂ fun f g => Q f.path g.path) (c.trace [q])) es es') :
    (b.compileOutput c (some es)).Paired S E (Compiled.MadeAlike Q V) (b.compileOutput c (some es')) := by
  have entries' : ∀ e ∈ es', b.isEntry e = true := by
    have both : List.Forall₂ (fun p q => b.isEntry p = b.isEntry q) es es' :=
      h.imp fun p q k => isEntry_congr (same p q k.1)
    intro e he
    obtain ⟨i, hi, rfl⟩ := List.getElem_of_mem he
    have hi' : i < es.length := by rwa [both.length_eq]
    exact (both.get hi' hi).symm.trans (entries _ (List.getElem_mem hi'))
  rw [compileOutput_eq, compileOutput_eq, asked, asked, requested_entries entries, requested_entries entries', pure_bind,
    pure_bind]
  exact (workingList_paired same h).bind fun l l' alike => assemble_paired load emit alike.1 alike.2

end Bundle

end ScriptBundler
