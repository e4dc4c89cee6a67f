import ScriptBundler.Proofs.Bundle.Tokens
import ScriptBundler.Proofs.Glob.Expand

/-!
# Requests one after the other

Collaborators are steady if they answer the same whenever they are asked the same. What is compiled with them is a
function of the request (`outcome`), and each of its stages goes through a list and carries nothing from one place to the
next (`mapM_append_eq_ok`). So the output of two lists of paths is that of the one followed by that of the other
(`Compiled.Joins`, `compileOutput_append`).
-/

namespace ScriptBundler

variable {σ : Type} {c : Collaborators σ} {I : σ → Prop} {T : Path → Attempted (List TracedFile)}
  {F : Path → Attempted SourceFile} {d : Disk} {b : Bundle}

/-- In worlds of `I` the trace of a path is that of `T`, its file that of `F`, and the disk is `d`. Nothing that is asked
leads out of these worlds. -/
structure Collaborators.Steady (c : Collaborators σ) (I : σ → Prop) (T : Path → Attempted (List TracedFile))
    (F : Path → Attempted SourceFile) (d : Disk) : Prop where
  trace : ∀ p, (c.trace [p]).Yields I (T p)
  load : ∀ p, (c.load p).Yields I (F p)
  disk : ∀ w, I w → c.disk w = d
  emit : ∀ e w, I w → I (c.emit e w)

/-! ### Outputs in a row -/

/-- The lines of the blocks of an output, each block's counted in 32 bits. -/
def Compiled.height (out : Compiled) : Nat := (out.blocks.map SourceMap.lineCount).sum

/-- The output is made of another one and, below it, of a second one. -/
structure Compiled.Joins (out upper lower : Compiled) : Prop where
  traced : out.traced = upper.traced ++ lower.traced
  bundled : out.bundled = upper.bundled ++ lower.bundled
  blocks : out.blocks = upper.blocks ++ lower.blocks
  offsets : out.offsets = upper.offsets ++ lower.offsets.map fun offset => (upper.height + offset) % UInt32.size
  /-- As long as 32 bits are enough, the offsets are raised by just the lines above. -/
  offsets_of_lt : upper.height + lower.height < UInt32.size →
    out.offsets = upper.offsets ++ lower.offsets.map (upper.height + ·)
  marks : out.map.marks.Perm (upper.map.marks ++ lower.map.marks.map (·.lower upper.height))
  /-- With this the marks say all that there is to tokens. -/
  single : ∀ t ∈ out.map.tokens ++ upper.map.tokens ++ lower.map.tokens, t.isRange = false
  joiner : out.joiner = upper.joiner ∧ out.joiner = lower.joiner

private theorem Mark.lower_lower (k : Mark) (m n : Nat) : (k.lower n).lower m = k.lower (m + n) := by
  unfold Mark.lower
  have : ((k.line + n) % UInt32.size + m) % UInt32.size = (k.line + (m + n)) % UInt32.size := by
    rw [Nat.mod_add_mod, Nat.add_assoc, Nat.add_comm n m]
  simp only [this]

/-- How far down a mark goes is told by 32 bits. -/
private theorem Mark.lower_congr {m n : Nat} (h : m % UInt32.size = n % UInt32.size) (k : Mark) :
    k.lower m = k.lower n := by
  unfold Mark.lower
  rw [Nat.add_mod, h, ← Nat.add_mod]

namespace Bundle

open Assembly (lines)

private theorem Assembly.foldl_add_offsets_append (files files' : List SourceFile) :
    ((files ++ files').foldl add {}).combined.offsets =
      (files.foldl add {}).combined.offsets ++
        (files'.foldl add {}).combined.offsets.map fun offset => (lines files + offset) % UInt32.size := by
  rw [foldl_add_offsets, foldl_add_offsets, foldl_add_offsets, List.length_append, List.range_add, List.map_append,
    List.map_map, List.map_map]
  congr 1
  · apply List.map_congr_left
    intro k hk
    rw [List.take_append_of_le_length (Nat.le_of_lt (List.mem_range.1 hk))]
  · apply List.map_congr_left
    intro k _
    show lines (List.take (files.length + k) (files ++ files')) % UInt32.size = _
    rw [List.take_length_add_append, lines_append, ← Nat.add_mod_mod]
    rfl

private theorem Assembly.foldl_add_marks_append (files files' : List SourceFile) :
    ((files ++ files').foldl add {}).combined.builder.marks = (files.foldl add {}).combined.builder.marks ++
      (files'.foldl add {}).combined.builder.marks.map (·.lower (lines files)) := by
  have same : files.length = (files.foldl add {}).combined.offsets.length := by simp [foldl_add_offsets]
  rw [(foldl_add_marks _).2, (foldl_add_marks files).2, (foldl_add_marks files').2, foldl_add_offsets_append,
    List.zip_append same, List.flatMap_append, List.zip_map_right, List.flatMap_map, List.map_flatMap]
  congr 1
  refine List.flatMap_congr fun f _ => ?_
  rw [List.map_map]
  exact List.map_congr_left fun k _ => ((k.lower_lower _ _).trans (k.lower_congr (Nat.mod_mod ..).symm)).symm

private theorem height_ofFiles (files : List SourceFile) (traced bundled : List Path) (joiner : String) :
    (Compiled.ofFiles files traced bundled joiner).height = ((files.map (·.code)).map SourceMap.lineCount).sum := by
  rw [Compiled.height, Compiled.ofFiles_blocks]

/-- No file starts below the lines of an output. -/
private theorem le_height_of_mem_offsets {files : List SourceFile} {traced bundled : List Path} {joiner : String}
    {offset : Nat} (h : offset ∈ (Compiled.ofFiles files traced bundled joiner).offsets) :
    offset ≤ (Compiled.ofFiles files traced bundled joiner).height := by
  rw [Compiled.ofFiles_offsets] at h
  obtain ⟨k, -, rfl⟩ := List.mem_map.1 h
  rw [Compiled.linesAhead_ofFiles, Assembly.lines_mod, height_ofFiles, List.map_take, List.map_take]
  exact (Nat.mod_le ..).trans ((List.take_sublist k _).sum_le_sum fun _ _ => Nat.zero_le _)

/-- The output of files that have been loaded, the first ones and then the others. -/
private theorem ofFiles_append (files files' : List SourceFile) (traced traced' bundled bundled' : List Path)
    (joiner : String) : (Compiled.ofFiles (files ++ files') (traced ++ traced') (bundled ++ bundled') joiner).Joins
      (.ofFiles files traced bundled joiner) (.ofFiles files' traced' bundled' joiner) := by
  have height_mod : lines files % UInt32.size = (Compiled.ofFiles files traced bundled joiner).height % UInt32.size := by
    rw [height_ofFiles, Assembly.lines_mod]
  have offsets : (Compiled.ofFiles (files ++ files') (traced ++ traced') (bundled ++ bundled') joiner).offsets =
      (Compiled.ofFiles files traced bundled joiner).offsets ++ (Compiled.ofFiles files' traced' bundled' joiner).offsets.map
        fun offset => ((Compiled.ofFiles files traced bundled joiner).height + offset) % UInt32.size := by
    refine (Assembly.foldl_add_offsets_append files files').trans (congrArg _ (List.map_congr_left fun offset _ => ?_))
    rw [Nat.add_mod, height_mod, ← Nat.add_mod]
  have single (files : List SourceFile) (traced bundled : List Path) :
      ∀ t ∈ (Compiled.ofFiles files traced bundled joiner).map.tokens, t.isRange = false := fun t ht =>
    (Assembly.foldl_add_marks files).1.single t ((SourceMap.Builder.finish_tokens_perm _).mem_iff.1 ht)
  refine ⟨rfl, rfl, ?_, offsets, fun fits => ?_, ?_, ?_, rfl, rfl⟩
  · show (List.foldl Assembly.add {} _).blocks =
      (List.foldl Assembly.add {} _).blocks ++ (List.foldl Assembly.add {} _).blocks
    rw [Assembly.foldl_add_blocks, Assembly.foldl_add_blocks, Assembly.foldl_add_blocks, List.map_append]
  · rw [offsets]
    refine congrArg _ (List.map_congr_left fun offset h => Nat.mod_eq_of_lt ?_)
    have := le_height_of_mem_offsets h
    omega
  · refine (SourceMap.Builder.marks_finish_perm _).trans ?_
    rw [Assembly.foldl_add_marks_append, List.map_congr_left fun k _ => k.lower_congr height_mod]
    exact .append (SourceMap.Builder.marks_finish_perm _).symm ((SourceMap.Builder.marks_finish_perm _).symm.map _)
  · intro t ht
    rw [List.append_assoc, List.mem_append, List.mem_append] at ht
    rcases ht with ht | ht | ht
    all_goals exact single _ _ _ t ht

/-! ### What a request comes to -/

/-- What a path stands for in a request: itself if it is an entry, else what it expands to. -/
def meaning (d : Disk) (b : Bundle) (p : Path) : Attempted (List Path) :=
  if b.isEntry p then .ok [p]
  else match Glob.expand d [p.text] with
    | .ok found => .ok found.toList
    | .error (pattern, e) => .error ⟨[.expandPattern pattern], .glob e⟩

/-- The files of one entry. -/
def belongings (T : Path → Attempted (List TracedFile)) (b : Bundle) (entry : Path) : Attempted (List Path) :=
  (T entry).map fun fs => b.listing entry (fs.map (·.path))

/-- The file at a path. -/
def fileAt (F : Path → Attempted SourceFile) (p : Path) : Attempted SourceFile := (F p).during (.loadFile p)

/-- The entries among what paths stand for. -/
def bundledBy (d : Disk) (b : Bundle) (ps : List Path) : Attempted (List Path) :=
  (ps.mapM (b.meaning d)).map fun asked => asked.flatten.filter b.isEntry

/-- The output of entries when traces and files are known. -/
def outcome (T : Path → Attempted (List TracedFile)) (F : Path → Attempted SourceFile) (b : Bundle)
    (bundled : List Path) : Attempted Compiled := do
  let traced := (← bundled.mapM (b.belongings T)).flatten
  let files ← traced.mapM (fileAt F)
  return .ofFiles files traced bundled b.options.joiner

private theorem expand_yields (h : ∀ w, I w → c.disk w = d) {p : Path} (hp : b.isEntry p = false) :
    (expand c [p.text]).Yields I (b.meaning d p) := by
  intro w hw
  unfold expand meaning
  rw [Action.get_bind_apply, h w hw, hp]
  cases Glob.expand d [p.text] with
  | ok found => exact ⟨rfl, hw⟩
  | error e => exact ⟨rfl, hw⟩

private theorem requested_yields (h : ∀ w, I w → c.disk w = d) (ps : List Path) :
    (b.requested c ps).Yields I ((ps.mapM (b.meaning d)).map List.flatten) := by
  induction ps with
  | nil => exact .pure []
  | cons p ps ih =>
    have e : ((p :: ps).mapM (b.meaning d)).map List.flatten =
        b.meaning d p >>= fun here => ((ps.mapM (b.meaning d)).map List.flatten).map (here ++ ·) := by
      rw [List.mapM_cons]
      rcases b.meaning d p with f | here
      · rfl
      · rcases ps.mapM (b.meaning d) with f | rest <;> rfl
    rw [e, requested]
    split
    · rename_i hp
      rw [meaning, if_pos hp]
      exact (Action.Yields.pure [p]).bind fun here _ => ih.map (here ++ ·)
    · rename_i hp
      exact (expand_yields h (by simpa using hp)).bind fun here _ => ih.map (here ++ ·)

private theorem filesOf_yields (h : c.Steady I T F d) (p : Path) : (b.filesOf c p).Yields I (b.belongings T p) := by
  have listed := (h.trace p).map fun fs => b.listing p (fs.map (·.path))
  exact listed

private theorem workingList_yields (h : c.Steady I T F d) (ps : List Path) : (b.workingList c ps).Yields I
    (((ps.filter b.isEntry).mapM (b.belongings T)).map fun files => (files.flatten, ps.filter b.isEntry)) := by
  induction ps with
  | nil => exact .pure ([], [])
  | cons p ps ih =>
    rw [workingList]
    split
    · rename_i hp
      have e : (((p :: ps).filter b.isEntry).mapM (b.belongings T)).map
            (fun files => (files.flatten, (p :: ps).filter b.isEntry)) =
          b.belongings T p >>= fun files => (((ps.filter b.isEntry).mapM (b.belongings T)).map
            fun files => (files.flatten, ps.filter b.isEntry)).map fun lists => (files ++ lists.1, p :: lists.2) := by
        rw [List.filter_cons_of_pos hp, List.mapM_cons]
        rcases b.belongings T p with f | files
        · rfl
        · rcases (ps.filter b.isEntry).mapM (b.belongings T) with f | rest <;> rfl
      rw [e]
      exact (filesOf_yields h p).bind fun files _ => ih.map fun lists => (files ++ lists.1, p :: lists.2)
    · rename_i hp
      rw [List.filter_cons_of_neg hp]
      exact ih

private theorem assembleFrom_yields (h : c.Steady I T F d) (traced bundled ps : List Path) (index : Nat) (a : Assembly) :
    (assembleFrom c traced bundled index a ps).Yields I
      ((ps.mapM (fileAt F)).map fun files => files.foldl Assembly.add a) := by
  induction ps generalizing index a with
  | nil => exact .pure a
  | cons p ps ih =>
    have e : ((p :: ps).mapM (fileAt F)).map (fun files => files.foldl Assembly.add a) =
        fileAt F p >>= fun file => (ps.mapM (fileAt F)).map fun files => files.foldl Assembly.add (a.add file) := by
      rw [List.mapM_cons]
      rcases fileAt F p with f | file
      · rfl
      · rcases ps.mapM (fileAt F) with f | rest <;> rfl
    rw [e]
    refine (Action.Yields.during (h.load p) (.loadFile p)).bind fun file _ => ?_
    exact (Action.Yields.modify (h.emit _)).bind fun _ _ => ih (index + 1) (a.add file)

private theorem assemble_yields (h : c.Steady I T F d) (traced bundled : List Path) :
    (b.assemble c traced bundled).Yields I
    ((traced.mapM (fileAt F)).map fun files => .ofFiles files traced bundled b.options.joiner) := by
  have e : (traced.mapM (fileAt F)).map (fun files => Compiled.ofFiles files traced bundled b.options.joiner) =
      ((traced.mapM (fileAt F)).map fun files => files.foldl Assembly.add {}).map fun a =>
        ⟨a.blocks, a.combined.finish, a.combined.offsets, traced, bundled, b.options.joiner⟩ := by
    cases traced.mapM (fileAt F) <;> rfl
  rw [e]
  exact (assembleFrom_yields h traced bundled traced 0 {}).map _

/-- The output of a request is that of the entries among what it stands for. -/
private theorem compileOutput_yields (h : c.Steady I T F d) (ps : List Path) :
    (b.compileOutput c (some ps)).Yields I (b.bundledBy d ps >>= b.outcome T F) := by
  have stages := (requested_yields (b := b) h.disk ps).bind fun asked _ => (workingList_yields (b := b) h asked).bind
    fun lists _ => assemble_yields (b := b) h lists.1 lists.2
  have e : b.bundledBy d ps >>= b.outcome T F = (ps.mapM (b.meaning d)).map List.flatten >>= fun asked =>
      (((asked.filter b.isEntry).mapM (b.belongings T)).map fun files => (files.flatten, asked.filter b.isEntry)) >>=
        fun lists => (lists.1.mapM (fileAt F)).map fun files => .ofFiles files lists.1 lists.2 b.options.joiner := by
    unfold bundledBy outcome
    rcases ps.mapM (b.meaning d) with f | asked
    · rfl
    · show _ = _ >>= _
      simp only [Except.map]
      rcases e : (asked.flatten.filter b.isEntry).mapM (b.belongings T) with f | traced
      · simp only [bind, Except.bind, e]
      · simp only [bind, Except.bind, e]
        rcases traced.flatten.mapM (fileAt F) <;> rfl
  rw [e]
  exact stages

/-! ### One request and another -/

/-- Going through a list carries nothing from one place to the next. -/
theorem mapM_append_eq_ok {α β : Type} {f : α → Attempted β} {xs ys : List α} {zs : List β} :
    (xs ++ ys).mapM f = .ok zs ↔ ∃ us vs, xs.mapM f = .ok us ∧ ys.mapM f = .ok vs ∧ us ++ vs = zs := by
  simp only [List.mapM_append, Action.bind_eq_ok, pure, Except.pure, Except.ok.injEq]
  exact ⟨fun ⟨us, hus, vs, hvs, e⟩ => ⟨us, vs, hus, hvs, e⟩, fun ⟨us, vs, hus, hvs, e⟩ => ⟨us, hus, vs, hvs, e⟩⟩

private theorem bundledBy_append {ps qs es : List Path} : b.bundledBy d (ps ++ qs) = .ok es ↔
    ∃ es₁ es₂, b.bundledBy d ps = .ok es₁ ∧ b.bundledBy d qs = .ok es₂ ∧ es₁ ++ es₂ = es := by
  simp only [bundledBy, Action.map_eq_ok, mapM_append_eq_ok]
  constructor
  · rintro ⟨_, ⟨us, vs, hus, hvs, rfl⟩, rfl⟩
    exact ⟨_, _, ⟨us, hus, rfl⟩, ⟨vs, hvs, rfl⟩, by rw [List.flatten_append, List.filter_append]⟩
  · rintro ⟨_, _, ⟨us, hus, rfl⟩, ⟨vs, hvs, rfl⟩, rfl⟩
    exact ⟨_, ⟨us, vs, hus, hvs, rfl⟩, by rw [List.flatten_append, List.filter_append]⟩

private theorem outcome_eq_ok {es : List Path} {out : Compiled} : b.outcome T F es = .ok out ↔
    ∃ traced files, es.mapM (b.belongings T) = .ok traced ∧ traced.flatten.mapM (fileAt F) = .ok files ∧
      Compiled.ofFiles files traced.flatten es b.options.joiner = out := by
  simp only [outcome, Action.bind_eq_ok, pure, Except.pure, Except.ok.injEq]
  exact ⟨fun ⟨t, ht, files, hf, e⟩ => ⟨t, files, ht, hf, e⟩, fun ⟨t, files, ht, hf, e⟩ => ⟨t, ht, files, hf, e⟩⟩

private theorem exists_of_outcome_append {es es' : List Path} {out : Compiled}
    (h : b.outcome T F (es ++ es') = .ok out) :
    (∃ upper, b.outcome T F es = .ok upper) ∧ ∃ lower, b.outcome T F es' = .ok lower := by
  obtain ⟨_, _, hts, hf, -⟩ := outcome_eq_ok.1 h
  obtain ⟨traced, traced', ht, ht', rfl⟩ := mapM_append_eq_ok.1 hts
  rw [List.flatten_append, mapM_append_eq_ok] at hf
  obtain ⟨files, files', hf, hf', -⟩ := hf
  exact ⟨⟨_, outcome_eq_ok.2 ⟨traced, files, ht, hf, rfl⟩⟩, _, outcome_eq_ok.2 ⟨traced', files', ht', hf', rfl⟩⟩

private theorem outcome_append {es es' : List Path} {upper lower : Compiled} (hu : b.outcome T F es = .ok upper)
    (hl : b.outcome T F es' = .ok lower) : ∃ out, b.outcome T F (es ++ es') = .ok out ∧ out.Joins upper lower := by
  obtain ⟨traced, files, ht, hf, rfl⟩ := outcome_eq_ok.1 hu
  obtain ⟨traced', files', ht', hf', rfl⟩ := outcome_eq_ok.1 hl
  have all_traced := mapM_append_eq_ok.2 ⟨traced, traced', ht, ht', rfl⟩
  have all_files := mapM_append_eq_ok.2 ⟨files, files', hf, hf', rfl⟩
  rw [← List.flatten_append] at all_files
  refine ⟨_, outcome_eq_ok.2 ⟨_, _, all_traced, all_files, rfl⟩, ?_⟩
  rw [List.flatten_append]
  exact ofFiles_append ..

/-- A path that stands for no entry adds nothing. -/
theorem bundledBy_insert {p : Path} {found : PathSet} (hp : b.isEntry p = false)
    (hfound : Glob.expand d [p.text] = .ok found) (none : ∀ q ∈ found.toList, b.isEntry q = false) (ps qs : List Path) :
    b.bundledBy d (ps ++ p :: qs) = b.bundledBy d (ps ++ qs) := by
  have nothing : found.toList.filter b.isEntry = [] := List.filter_eq_nil_iff.2 fun q hq => by simp [none q hq]
  have hm : b.meaning d p = .ok found.toList := by
    rw [meaning, hp, hfound]
    rfl
  unfold bundledBy
  rw [List.mapM_append, List.mapM_append, List.mapM_cons, hm]
  rcases ps.mapM (b.meaning d) with f | us
  · rfl
  · rcases qs.mapM (b.meaning d) with f | vs
    · rfl
    · show Except.ok _ = Except.ok _
      simp [nothing]

theorem requested_entries {ps : List Path} (h : ∀ p ∈ ps, b.isEntry p = true) : b.requested c ps = pure ps := by
  induction ps with
  | nil => rfl
  | cons p ps ih =>
    rw [List.forall_mem_cons] at h
    rw [requested, if_pos h.1, ih h.2]
    rfl

theorem isEntry_of_bundledBy {ps es : List Path} (h : b.bundledBy d ps = .ok es) : ∀ e ∈ es, b.isEntry e = true := by
  obtain ⟨asked, -, rfl⟩ := Action.map_eq_ok.1 h
  exact fun e he => (List.mem_filter.1 he).2

/-- What paths stand for is read off the disk, and the world stays as it is. -/
theorem requested_apply (ps : List Path) (w : σ) : b.requested c ps w =
    (((ps.mapM (b.meaning (c.disk w))).map List.flatten, w) : Attempted (List Path) × σ) := by
  have stays := requested_yields (I := (· = w)) (c := c) (b := b) (d := c.disk w) (fun _ h => by rw [h]) ps w rfl
  exact Prod.ext stays.1 stays.2

theorem workingList_filter (ps : List Path) : b.workingList c (ps.filter b.isEntry) = b.workingList c ps := by
  induction ps with
  | nil => rfl
  | cons p ps ih =>
    by_cases hp : b.isEntry p = true
    · rw [List.filter_cons_of_pos hp, workingList, workingList, ih]
    · rw [List.filter_cons_of_neg hp, workingList, if_neg hp, ih]

/-- A request is compiled like the entries among what it stands for. -/
theorem compileOutput_of_bundledBy {ps es : List Path} {w : σ} (h : b.bundledBy (c.disk w) ps = .ok es) :
    b.compileOutput c (some ps) w = b.compileOutput c (some es) w := by
  have entries := isEntry_of_bundledBy h
  obtain ⟨found, hm, rfl⟩ := Action.map_eq_ok.1 h
  rw [compileOutput_eq, compileOutput_eq, asked, asked, requested_entries entries, pure_bind, workingList_filter,
    Action.bind_apply, requested_apply, hm]
  rfl

theorem compileOutput_of_error {ps : List Path} {f : Failure} {w : σ} (h : b.bundledBy (c.disk w) ps = .error f) :
    b.compileOutput c (some ps) w = ((.error f, w) : Attempted Compiled × σ) := by
  rw [compileOutput_eq, Action.bind_apply, asked, requested_apply]
  unfold bundledBy at h
  rcases e : ps.mapM (b.meaning (c.disk w)) with f' | asked
  · rw [e] at h
    cases h
    rfl
  · rw [e] at h
    cases h

/-- With steady collaborators, two requests together succeed if each of them does, and the output is then that of the
first with that of the second below it. To request nothing in particular is to request all entries, and a path that
stands for no entry can be left out of a request. -/
theorem compileOutput_append (h : c.Steady I T F d) (b : Bundle) (ps qs : List Path) {w w₁ w₂ : σ} (hw : I w)
    (hw₁ : I w₁) (hw₂ : I w₂) :
    ((b.compileOutput c (some (ps ++ qs)) w).1.isOk = true ↔
      (b.compileOutput c (some ps) w₁).1.isOk = true ∧ (b.compileOutput c (some qs) w₂).1.isOk = true) ∧
    (∀ out upper lower, (b.compileOutput c (some (ps ++ qs)) w).1 = .ok out →
      (b.compileOutput c (some ps) w₁).1 = .ok upper → (b.compileOutput c (some qs) w₂).1 = .ok lower →
        out.Joins upper lower) ∧
    b.compileOutput c none = b.compileOutput c (some b.files) ∧
    ∀ p found, b.isEntry p = false → Glob.expand d [p.text] = .ok found → (∀ q ∈ found.toList, b.isEntry q = false) →
      (b.compileOutput c (some (ps ++ p :: qs)) w).1 = (b.compileOutput c (some (ps ++ qs)) w₁).1 := by
  have isOk_iff {r : Attempted Compiled} : r.isOk = true ↔ ∃ out, r = .ok out := by
    cases r <;> simp [Except.isOk, Except.toBool]
  rw [(compileOutput_yields h _ w hw).1, (compileOutput_yields h _ w₁ hw₁).1, (compileOutput_yields h _ w₂ hw₂).1]
  refine ⟨?_, ?_, ?_, ?_⟩
  · rw [isOk_iff, isOk_iff, isOk_iff]
    simp only [Action.bind_eq_ok]
    constructor
    · rintro ⟨out, es, hes, ho⟩
      obtain ⟨es₁, es₂, h₁, h₂, rfl⟩ := bundledBy_append.1 hes
      obtain ⟨⟨upper, hu⟩, lower, hl⟩ := exists_of_outcome_append ho
      exact ⟨⟨upper, es₁, h₁, hu⟩, lower, es₂, h₂, hl⟩
    · rintro ⟨⟨upper, es₁, h₁, hu⟩, lower, es₂, h₂, hl⟩
      obtain ⟨out, ho, -⟩ := outcome_append hu hl
      exact ⟨out, _, bundledBy_append.2 ⟨es₁, es₂, h₁, h₂, rfl⟩, ho⟩
  · intro out upper lower ho hu hl
    obtain ⟨es₁, h₁, hu⟩ := Action.bind_eq_ok.1 hu
    obtain ⟨es₂, h₂, hl⟩ := Action.bind_eq_ok.1 hl
    rw [bundledBy_append.2 ⟨es₁, es₂, h₁, h₂, rfl⟩] at ho
    obtain ⟨out', ho', joins⟩ := outcome_append hu hl
    cases ho'.symm.trans ho
    exact joins
  · show (pure b.files >>= _) = (b.requested c b.files >>= _)
    rw [requested_entries fun p hp => isEntry_of_mem hp]
  · intro p found hp hfound none
    rw [(compileOutput_yields h _ w hw).1, (compileOutput_yields h _ w₁ hw₁).1, bundledBy_insert hp hfound none]

private theorem ofGraph_steady (g : Graph) (there : List Path) : (Collaborators.ofGraph g there).Steady (fun _ => True)
    (fun p => g.trace [p]) (fun p => .ok ⟨p.text, .identity p.text p.text⟩) default where
  trace _ _ _ := ⟨rfl, trivial⟩
  load _ _ _ := ⟨rfl, trivial⟩
  disk _ _ := rfl
  emit _ _ _ := trivial

/-- The file `s` is in the output of both entries. It is no entry, and to ask for it adds nothing. -/
theorem compileOutput_append_fork : ∃ b, Built (.ofGraph fork []) b ∧ ∃ out upper lower,
    (b.compileOutput (.ofGraph fork []) (some [⟨"a"⟩, ⟨"b"⟩]) ()).1 = .ok out ∧
    (b.compileOutput (.ofGraph fork []) (some [⟨"a"⟩]) ()).1 = .ok upper ∧
    (b.compileOutput (.ofGraph fork []) (some [⟨"b"⟩]) ()).1 = .ok lower ∧ out.Joins upper lower ∧
    upper.height = 2 ∧ out.offsets = [0, 1, 2, 3] ∧
    (b.compileOutput (.ofGraph fork []) (some [⟨"a"⟩, ⟨"s"⟩, ⟨"b"⟩]) ()).1 = .ok out := by
  have hb : Built (.ofGraph fork []) (ofGraph fork [] ["a", "b"] {}) := ofGraph_built (by decide)
  have any : (fun _ : Unit => True) () := trivial
  obtain ⟨isOk_iff, joins, -, inserted⟩ := compileOutput_append (ofGraph_steady fork [])
    (ofGraph fork [] ["a", "b"] {}) [⟨"a"⟩] [⟨"b"⟩] any any any
  have upper_ok : (compileOutput (.ofGraph fork []) (ofGraph fork [] ["a", "b"] {}) (some [⟨"a"⟩]) ()).1.isOk = true := by
    decide
  have lower_ok : (compileOutput (.ofGraph fork []) (ofGraph fork [] ["a", "b"] {}) (some [⟨"b"⟩]) ()).1.isOk = true := by
    decide
  have ho := Action.eq_ok_of_isOk (isOk_iff.2 ⟨upper_ok, lower_ok⟩)
  have hu := Action.eq_ok_of_isOk upper_ok
  have hl := Action.eq_ok_of_isOk lower_ok
  have hs := inserted ⟨"s"⟩ (.ofList [⟨"s"⟩]) (by decide) (by rfl) (by decide)
  exact ⟨_, hb, _, _, _, ho, hu, hl, joins _ _ _ ho hu hl, by decide, by decide, hs.trans ho⟩

end Bundle

end ScriptBundler
