import ScriptBundler.Proofs.Bundle.Pairs
import ScriptBundler.Proofs.Glob.Expand
import ScriptBundler.Proofs.Splicing
import ScriptBundler.Proofs.Trace.Listing

/-!
# Requests that are spelled differently

A request may name its files in another spelling. If tracer and loader heed the steps of a path only, the output is the
same (`compileOutput_respelled`), but for the two uses that are made of the text of a path: the text of what is no entry
is read as a pattern, and the text of an entry is compared with the common pattern. In `compileOutput_rereads` both make
a difference.
-/

namespace ScriptBundler

variable {σ : Type} {c : Collaborators σ} {b : Bundle} {I : σ → Prop} {T : Path → Attempted (List TracedFile)}
  {F : Path → Attempted SourceFile} {d : Disk} {p q : Path}

private theorem SameFiles.alike {r r' : Attempted (List TracedFile)} (h : SameFiles r r') :
    r.Alike (fun _ _ => True) (List.Forall₂ fun f g => (f.path == g.path) = true) r' := by
  rcases r with e | fs
  · rcases r' with e' | gs
    · exact .error trivial
    · exact h.elim
  · rcases r' with e' | gs
    · exact h.elim
    · exact .ok h

/-! ### Two spellings of a request -/

namespace Bundle

/-- Lists of paths that are equal and carry the same common files. -/
abbrev SameEntries (b : Bundle) (es es' : List Path) : Prop :=
  List.Forall₂ (fun e e' => (e == e') = true ∧ b.carried e = b.carried e') es es'

/-- Two spellings of a path are used alike in a request: an entry carries the same common files in both, and what is no
entry but has pattern syntax stands for the same entries. -/
structure UsedAlike (b : Bundle) (d : Disk) (p q : Path) : Prop where
  same : (p == q) = true
  carried : b.isEntry p = true → b.carried p = b.carried q
  pattern : b.isEntry p = false → Glob.hasMagic p.text = true →
    Attempted.Alike (fun _ _ => True) (fun es es' => b.SameEntries (es.filter b.isEntry) (es'.filter b.isEntry))
      (b.meaning d p) (b.meaning d q)

/-- Without pattern syntax, it is enough that both spellings match the common pattern, or neither. -/
private theorem UsedAlike.of_literal (same : (p == q) = true) (carrier : b.isCarrier p = b.isCarrier q)
    (literal : Glob.hasMagic p.text = false) : b.UsedAlike d p q where
  same := same
  carried _ := by
    rw [Bundle.carried, Bundle.carried, carrier]
  pattern _ magic := by
    rw [literal] at magic
    cases magic

private theorem UsedAlike.meaning (h : b.UsedAlike d p q) : Attempted.Alike (fun _ _ => True)
    (fun es es' => b.SameEntries (es.filter b.isEntry) (es'.filter b.isEntry)) (b.meaning d p) (b.meaning d q) := by
  have entry := isEntry_congr (b := b) h.same
  by_cases hp : b.isEntry p = true
  · have hq : b.isEntry q = true := by rw [← entry, hp]
    rw [Bundle.meaning, Bundle.meaning, if_pos hp, if_pos hq]
    refine .ok ?_
    rw [List.filter_cons_of_pos hp, List.filter_cons_of_pos hq]
    exact .cons ⟨h.same, h.carried hp⟩ .nil
  · by_cases magic : Glob.hasMagic p.text = true
    · exact h.pattern (by simpa using hp) magic
    · -- without pattern syntax a path stands for itself, and is no entry here
      have hq : ¬ b.isEntry q = true := by rwa [← entry]
      have literal : ¬ Glob.hasMagic q.text = true := by
        rwa [Glob.hasMagic_eq, ← Path.beq_iff.1 h.same, ← Glob.hasMagic_eq]
      have stands {r : Path} (hr : ¬ b.isEntry r = true) (hm : ¬ Glob.hasMagic r.text = true) :
          b.meaning d r = .ok [r] := by
        rw [Bundle.meaning, if_neg hr, Glob.expand_single, Glob.expandOne, if_pos (.inl hm)]
        rfl
      rw [stands hp magic, stands hq literal]
      refine .ok ?_
      rw [List.filter_cons_of_neg hp, List.filter_cons_of_neg hq]
      exact .nil

private theorem bundledBy_respelled {ps qs : List Path} (h : List.Forall₂ (b.UsedAlike d) ps qs) :
    Attempted.Alike (fun _ _ => True) b.SameEntries (b.bundledBy d ps) (b.bundledBy d qs) := by
  refine (Attempted.Alike.mapM (fun p q k => k.meaning) h).map fun found found' alike => ?_
  rw [List.filter_flatten, List.filter_flatten]
  refine List.rel_flatten ?_
  rw [List.forall₂_map_left_iff, List.forall₂_map_right_iff]
  exact alike

/-- With a tracer and a loader for which the spelling of a path is of no matter, a request in another spelling succeeds
if and only if it does in the first one, and the outputs have the same code on the same lines, of files and entries that
are the same. -/
theorem compileOutput_respelled (h : c.Steady I T F d) (traces : ∀ p q, (p == q) = true → SameFiles (T p) (T q))
    (loads : ∀ p q, (p == q) = true → Attempted.Alike (fun _ _ => True) (fun f g => f.code = g.code) (F p) (F q))
    (b : Bundle) {ps qs : List Path} (used : List.Forall₂ (b.UsedAlike d) ps qs) {w v : σ} (hw : I w) (hv : I v) :
    ((b.compileOutput c (some ps) w).1.isOk = true ↔ (b.compileOutput c (some qs) v).1.isOk = true) ∧
    ∀ out out', (b.compileOutput c (some ps) w).1 = .ok out → (b.compileOutput c (some qs) v).1 = .ok out' →
      out.code = out'.code ∧ out.offsets = out'.offsets ∧
      List.Forall₂ (fun p q => (p == q) = true) out.traced out'.traced ∧
      List.Forall₂ (fun p q => (p == q) = true) out.bundled out'.bundled := by
  have alike : Attempted.Alike (fun _ _ => True)
      (Compiled.MadeAlike (fun p q => (p == q) = true) fun f g => f.code = g.code)
      (b.compileOutput c (some ps) w).1 (b.compileOutput c (some qs) v).1 := by
    have meant := bundledBy_respelled used
    rcases hes : b.bundledBy d ps with f | es
    all_goals
      rcases hes' : b.bundledBy d qs with f' | es'
      all_goals
        rw [hes, hes'] at meant
        rw [← h.disk w hw] at hes
        rw [← h.disk v hv] at hes'
    · rw [compileOutput_of_error hes, compileOutput_of_error hes']
      exact .error trivial
    · cases meant
    · cases meant
    · rw [compileOutput_of_bundledBy hes, compileOutput_of_bundledBy hes']
      cases meant with
      | ok entries =>
        refine (compileOutput_paired (S := fun w v => I w ∧ I v) (fun _ _ same => same) (fun p q same => ?_)
          (fun e e' w v k => ⟨h.emit e w k.1, h.emit e' v k.2⟩) (isEntry_of_bundledBy hes) ?_ w v ⟨hw, hv⟩).1
        · exact .of_yields (.during (h.load p) _) (.during (h.load q) _) (loads p q same).during
        · refine entries.imp fun p q pq => ⟨pq.1, ?_, .of_yields (h.trace p) (h.trace q) (traces p q pq.1).alike⟩
          rw [pq.2]
          exact List.forall₂_same.2 fun _ _ => BEq.rfl
  refine ⟨by rw [alike.isOk_eq], fun out out' ho ho' => ?_⟩
  have made := alike.of_ok ho ho'
  obtain ⟨code, offsets⟩ := made.code_offsets fun _ _ same => same
  exact ⟨code, offsets, made.traced, made.bundled⟩

/-! ### Files that are their names -/

/-- Collaborators in memory for which the spelling of a path is of no matter. -/
def ofNames (g : Graph) (d : Disk) : Collaborators Unit where
  trace ps := Action.lift (g.trace ps)
  load p := Action.lift (named p)
  isThere _ p := d.exists p
  disk _ := d
  emit _ w := w
where
  named (p : Path) : Attempted SourceFile :=
    let text := (Path.ofComponents p.components).text
    .ok ⟨text, .identity text text⟩

private theorem ofNames_steady (g : Graph) (d : Disk) :
    (ofNames g d).Steady (fun _ => True) (fun p => g.trace [p]) ofNames.named d where
  trace _ _ _ := ⟨rfl, trivial⟩
  load _ _ _ := ⟨rfl, trivial⟩
  disk _ _ := rfl
  emit _ _ _ := trivial

private theorem named_alike (same : (p == q) = true) :
    Attempted.Alike (fun _ _ => True) (fun f g => f.code = g.code) (ofNames.named p) (ofNames.named q) := by
  rw [ofNames.named, ofNames.named, Path.beq_iff.1 same]
  exact .ok rfl

/-- Two scripts that need a third one. -/
def needing : Graph :=
  { rows := [((⟨"/a.js"⟩ : Path).components, [⟨"/s.js"⟩]), ((⟨"/b.js"⟩ : Path).components, [⟨"/s.js"⟩])] }

/-- The disk holds one of them. -/
def holding : Disk := .ofScripts [("a.js", "")]

/-- Their bundle. -/
def sharers (common : CommonOption) : Bundle :=
  (Bundle.of (ofNames needing holding) ["/a.js", "/b.js"] { common } ()).1.toOption.getD default

/-- With a common pattern that looks at names only, slashes and dots in a request are of no matter, nor is another path
in it. -/
theorem compileOutput_respelled_sharers : ∃ b, Built (ofNames needing holding) b ∧
    (ofNames needing holding).Steady (fun _ => True) (fun p => needing.trace [p]) ofNames.named holding ∧
    List.Forall₂ (b.UsedAlike holding) [⟨"/a.js"⟩, ⟨"/s.js"⟩, ⟨"/b.js"⟩] [⟨"/./a.js"⟩, ⟨"//s.js"⟩, ⟨"//b.js"⟩] ∧
    ∃ out out', (b.compileOutput (ofNames needing holding) (some [⟨"/a.js"⟩, ⟨"/s.js"⟩, ⟨"/b.js"⟩]) ()).1 = .ok out ∧
      (b.compileOutput (ofNames needing holding) (some [⟨"/./a.js"⟩, ⟨"//s.js"⟩, ⟨"//b.js"⟩]) ()).1 = .ok out' ∧
      out.code = out'.code ∧ out.offsets = [0, 1, 2] ∧ out'.offsets = [0, 1, 2] := by
  have made : (Bundle.of (ofNames needing holding) ["/a.js", "/b.js"] { common := .pattern "/**/a.js" } ()).1.isOk = true := by
    decide +kernel
  have used : List.Forall₂ ((sharers (.pattern "/**/a.js")).UsedAlike holding) [⟨"/a.js"⟩, ⟨"/s.js"⟩, ⟨"/b.js"⟩]
      [⟨"/./a.js"⟩, ⟨"//s.js"⟩, ⟨"//b.js"⟩] := by
    refine .cons (.of_literal ?_ ?_ ?_) (.cons (.of_literal ?_ ?_ ?_) (.cons (.of_literal ?_ ?_ ?_) .nil))
    all_goals decide +kernel
  have any : (fun _ : Unit => True) () := trivial
  obtain ⟨isOk_iff, alike⟩ := compileOutput_respelled (ofNames_steady needing holding)
    (fun p q same => needing.sameFiles_trace same) (fun p q same => named_alike same) (sharers (.pattern "/**/a.js")) used
    any any
  have first : ((sharers (.pattern "/**/a.js")).compileOutput (ofNames needing holding)
      (some [⟨"/a.js"⟩, ⟨"/s.js"⟩, ⟨"/b.js"⟩]) ()).1.isOk = true := by decide +kernel
  have ho := Action.eq_ok_of_isOk first
  have ho' := Action.eq_ok_of_isOk (isOk_iff.1 first)
  obtain ⟨code, offsets, -⟩ := alike _ _ ho ho'
  have starts : (((sharers (.pattern "/**/a.js")).compileOutput (ofNames needing holding)
      (some [⟨"/a.js"⟩, ⟨"/s.js"⟩, ⟨"/b.js"⟩]) ()).1.toOption.getD default).offsets = [0, 1, 2] := by decide +kernel
  exact ⟨_, .of (Action.gives_of_isOk made), ofNames_steady .., used, _, _, ho, ho', code, starts, offsets.symm.trans starts⟩

private theorem expandOne_holding : Glob.expandOne holding "/*.js" = .ok [⟨"/a.js"⟩] ∧
    Glob.expandOne holding "/*.js/" = .ok [⟨"/*.js/"⟩] := by
  have sorted : (holding.namesIn []).mergeSort (fun a b => a ≤ b) = ["a.js"] := List.mergeSort_of_pairwise (by decide)
  have found : Glob.paths holding "/*.js" = .ok [⟨"/a.js"⟩] := by
    rw [Glob.paths_of_piece ⟨[.anyRun, .char '.', .char 'j', .char 's']⟩ (by decide +kernel) (by decide +kernel)
      (by decide) (by decide) (by decide) (by decide), sorted]
    rfl
  have none_found : Glob.paths holding "/*.js/" = .ok [] := by
    rw [Glob.paths_of_piece ⟨[.anyRun, .char '.', .char 'j', .char 's']⟩ (by decide +kernel) (by decide +kernel)
      (by decide) (by decide) (by decide) (by decide), sorted]
    rfl
  rw [Glob.expandOne, Glob.expandOne, if_neg (by decide +kernel), if_neg (by decide +kernel), found, none_found]
  exact ⟨rfl, rfl⟩

/-- A slash behind a pattern makes it one for directories, which finds no entry. And an entry with one slash more does
not carry the common files, since its text is not that of the common pattern. -/
theorem compileOutput_rereads : ∃ b, Built (ofNames needing holding) b ∧
    (ofNames needing holding).Steady (fun _ => True) (fun p => needing.trace [p]) ofNames.named holding ∧
    (∀ p q : Path, (p == q) = true → SameFiles (needing.trace [p]) (needing.trace [q])) ∧
    (∀ p q : Path, (p == q) = true →
      Attempted.Alike (fun _ _ => True) (fun f g => f.code = g.code) (ofNames.named p) (ofNames.named q)) ∧
    ((⟨"/*.js"⟩ : Path) == ⟨"/*.js/"⟩) = true ∧ ((⟨"/a.js"⟩ : Path) == ⟨"//a.js"⟩) = true ∧
    (∃ out out', (b.compileOutput (ofNames needing holding) (some [⟨"/*.js"⟩]) ()).1 = .ok out ∧
      (b.compileOutput (ofNames needing holding) (some [⟨"/*.js/"⟩]) ()).1 = .ok out' ∧
      out.bundled.map (·.text) = ["/a.js"] ∧ out'.bundled.map (·.text) = []) ∧
    ∃ out out', (b.compileOutput (ofNames needing holding) (some [⟨"/a.js"⟩]) ()).1 = .ok out ∧
      (b.compileOutput (ofNames needing holding) (some [⟨"//a.js"⟩]) ()).1 = .ok out' ∧
      out.traced.map (·.text) = ["/s.js", "/a.js"] ∧ out'.traced.map (·.text) = ["//a.js"] := by
  have made : (Bundle.of (ofNames needing holding) ["/a.js", "/b.js"] { common := .pattern "/a.js" } ()).1.isOk = true := by
    decide +kernel
  have all : (sharers (.pattern "/a.js")).bundledBy holding [⟨"/*.js"⟩] = .ok [⟨"/a.js"⟩] := by
    rw [bundledBy, List.mapM_cons, List.mapM_nil, meaning, if_neg (by decide +kernel), Glob.expand_single, expandOne_holding.1]
    rfl
  have none : (sharers (.pattern "/a.js")).bundledBy holding [⟨"/*.js/"⟩] = .ok [] := by
    rw [bundledBy, List.mapM_cons, List.mapM_nil, meaning, if_neg (by decide +kernel), Glob.expand_single, expandOne_holding.2]
    rfl
  have output {ps : List Path} (answered : ((sharers (.pattern "/a.js")).compileOutput (ofNames needing holding)
      (some ps) ()).1.isOk = true) := Action.eq_ok_of_isOk answered
  have read_all := congrArg Prod.fst (compileOutput_of_bundledBy (c := ofNames needing holding) (w := ()) all)
  have read_none := congrArg Prod.fst (compileOutput_of_bundledBy (c := ofNames needing holding) (w := ()) none)
  refine ⟨_, .of (Action.gives_of_isOk made), ofNames_steady .., fun p q same => needing.sameFiles_trace same,
    fun p q same => named_alike same, by decide +kernel, by decide +kernel,
    ⟨_, _, read_all.trans (output ?_), read_none.trans (output ?_), ?_, ?_⟩, _, _, output ?_, output ?_, ?_⟩
  all_goals decide +kernel

end Bundle

end ScriptBundler
