import ScriptBundler.Build
import ScriptBundler.Proofs.Bundle.Output
import ScriptBundler.Proofs.Bundle.Placement

/-!
# Builds side by side

Entries may be compiled and written side by side. Each of them is a `Job`, which goes on by one call of a collaborator
at a time (`Job.next`), and at each time any job may be the next to go on (`Runs`). When all outputs of entries have
been written, the common files follow (`Builds`). To compile entries one after the other is one of the ways to do it
(`builds_of_build`).

If the worlds in which jobs run agree on what they are told (`Agreement`), what is written does not depend on the order
(`Agreement.builds`): every single step keeps what each job has come to (`Agreement.next`), and so does a run
(`Agreement.runs`).
-/

namespace ScriptBundler.Bundle

variable {σ : Type} {c : Collaborators σ} {write : Path → String → Action σ Output} {b : Bundle} {root out e : Path}

/-- How far an entry has come. -/
inductive Job where
  | waiting
  /-- Files of the output are loaded; the rest is left. -/
  | loading (traced : List Path) (index : Nat) (a : Assembly) (rest : List Path)
  | ready (text : String)
  | written (o : Output)

/-- The text of the output of files that have been assembled. -/
def Assembly.text (a : Assembly) (joiner : String) : String :=
  (Compiled.mk a.blocks a.combined.finish a.combined.offsets [] [] joiner).render

/-- What is done next for an entry. -/
def Job.next (c : Collaborators σ) (write : Path → String → Action σ Output) (b : Bundle) (root out e : Path) :
    Job → Action σ Job
  | waiting => do
    let traced ← (b.filesOf c e).during (.bundleEntry e)
    return loading traced 0 {} traced
  | loading _ _ a [] => return ready (a.text b.options.joiner)
  | loading traced index a (p :: rest) => do
    let file ← ((c.load p).during (.loadFile p)).during (.bundleEntry e)
    modify (c.emit ⟨p, index, traced, [e]⟩)
    return loading traced (index + 1) (a.add file) rest
  | ready text => return written (← write (outputPath root out e) text)
  | written o => return written o

/-- Jobs go on, one at a time. -/
inductive Runs (c : Collaborators σ) (write : Path → String → Action σ Output) (b : Bundle) (root out : Path) :
    List (Path × Job) → σ → List (Path × Job) → σ → Prop
  | done {jobs : List (Path × Job)} {w : σ} : Runs c write b root out jobs w jobs w
  | step {front back jobs : List (Path × Job)} {e : Path} {j j' : Job} {w w₁ w' : σ}
    (h : (j.next c write b root out e).Gives w j' w₁)
    (k : Runs c write b root out (front ++ (e, j') :: back) w₁ jobs w') :
    Runs c write b root out (front ++ (e, j) :: back) w jobs w'

/-- Writes the output of the common files, if they get one of their own. -/
def buildChunk (c : Collaborators σ) (write : Path → String → Action σ Output) (b : Bundle) (root out : Path) :
    Action σ (List Output) :=
  match b.chunk? with
  | some d => do
    let text ← b.compileCommon c
    return [← write (outputPath root out d) text]
  | none => return []

/-- A build whose entries are compiled and written side by side. -/
inductive Builds (c : Collaborators σ) (write : Path → String → Action σ Output) (b : Bundle) (root out : Path) :
    σ → List Output → σ → Prop
  | mk {w w₁ w' : σ} {jobs : List (Path × Job)} {own chunk : List Output}
    (runs : Runs c write b root out (b.files.map (·, .waiting)) w jobs w₁) (all : jobs.map (·.2) = own.map .written)
    (last : (b.buildChunk c write root out).Gives w₁ chunk w') : Builds c write b root out w (own ++ chunk) w'

/-! ### One job after the other -/

theorem Runs.trans {jobs₁ jobs₂ jobs₃ : List (Path × Job)} {w₁ w₂ w₃ : σ}
    (h : Runs c write b root out jobs₁ w₁ jobs₂ w₂) (k : Runs c write b root out jobs₂ w₂ jobs₃ w₃) :
    Runs c write b root out jobs₁ w₁ jobs₃ w₃ := by
  induction h with
  | done => exact k
  | step e _ ih => exact .step e (ih k)

theorem gives_compile {paths : Option (List Path)} {w w' : σ} {text : String} :
    (b.compile c paths).Gives w text w' ↔ ∃ compiled, (b.compileOutput c paths).Gives w compiled w' ∧
      compiled.render = text := by
  unfold compile
  simp only [Action.gives_bind, Action.gives_pure]
  exact ⟨fun ⟨compiled, w₁, h, e, k⟩ => ⟨compiled, k ▸ h, e⟩, fun ⟨compiled, h, e⟩ => ⟨compiled, w', h, e, rfl⟩⟩

/-- The compilation of an entry in its parts. -/
private theorem gives_compile_entry (he : b.isEntry e = true) {w w' : σ} {text : String}
    (h : (b.compile c (some [e])).Gives w text w') : ∃ traced w₁ a, (b.filesOf c e).Gives w traced w₁ ∧
      (assembleFrom c traced [e] 0 {} traced).Gives w₁ a w' ∧ text = a.text b.options.joiner := by
  obtain ⟨compiled, compiling, rfl⟩ := gives_compile.1 h
  obtain ⟨entries, w₂, traced, bundled, w₃, asking, listing, assembling⟩ := gives_compileOutput compiling
  -- an entry stands for itself, so that nothing is searched for
  simp only [asked, requested, he, if_true, pure_bind, List.append_nil] at asking
  obtain ⟨rfl, rfl⟩ := Action.gives_pure.1 asking
  simp only [workingList, he, if_true, pure_bind] at listing
  obtain ⟨files, w₄, hfiles, listing⟩ := Action.gives_bind.1 listing
  obtain ⟨lists_eq, rfl⟩ := Action.gives_pure.1 listing
  rw [List.append_nil, Prod.mk.injEq] at lists_eq
  obtain ⟨rfl, rfl⟩ := lists_eq
  obtain ⟨a, w₅, assembled, last⟩ := Action.gives_bind.1 assembling
  obtain ⟨rfl, rfl⟩ := Action.gives_pure.1 last
  exact ⟨files, _, a, hfiles, assembled, rfl⟩

section Alone

variable {w w' : σ} (front back : List (Path × Job))

private theorem runs_loading {traced rest : List Path} {index : Nat} {a a' : Assembly}
    (h : (assembleFrom c traced [e] index a rest).Gives w a' w') : Runs c write b root out
      (front ++ (e, .loading traced index a rest) :: back) w
      (front ++ (e, .ready (a'.text b.options.joiner)) :: back) w' := by
  induction rest generalizing index a w with
  | nil =>
    obtain ⟨rfl, rfl⟩ := Action.gives_pure.1 h
    exact .step (Action.gives_pure.2 ⟨rfl, rfl⟩) .done
  | cons p rest ih =>
    obtain ⟨file, w₁, loaded, h⟩ := Action.gives_bind.1 h
    obtain ⟨u, w₂, emitted, h⟩ := Action.gives_bind.1 h
    refine .step ?_ (ih h)
    refine Action.gives_bind.2 ⟨file, w₁, Action.gives_during.2 loaded, ?_⟩
    exact Action.gives_bind.2 ⟨u, w₂, emitted, Action.gives_pure.2 ⟨rfl, rfl⟩⟩

/-- A job may go on until its output is compiled, while all others stay as they are. -/
theorem runs_ready (he : b.isEntry e = true) {text : String} (h : (b.compile c (some [e])).Gives w text w') :
    Runs c write b root out (front ++ (e, .waiting) :: back) w (front ++ (e, .ready text) :: back) w' := by
  obtain ⟨traced, w₁, a, hfiles, assembled, rfl⟩ := gives_compile_entry he h
  refine .step ?_ (runs_loading front back assembled)
  exact Action.gives_bind.2 ⟨traced, w₁, Action.gives_during.2 hfiles, Action.gives_pure.2 ⟨rfl, rfl⟩⟩

theorem runs_written {text : String} {o : Output} (h : (write (outputPath root out e) text).Gives w o w') :
    Runs c write b root out (front ++ (e, .ready text) :: back) w (front ++ (e, .written o) :: back) w' :=
  .step (Action.gives_bind.2 ⟨o, w', h, Action.gives_pure.2 ⟨rfl, rfl⟩⟩) .done

private theorem runs_buildEntries {entries : List Path} (he : ∀ e ∈ entries, b.isEntry e = true) {own : List Output}
    (h : (b.buildEntries c write root out entries).Gives w own w') : ∃ jobs, jobs.map (·.2) = own.map .written ∧
      Runs c write b root out (front ++ entries.map (·, .waiting)) w (front ++ jobs) w' := by
  -- the jobs in front have been written, and those behind them wait
  induction entries generalizing front w own with
  | nil =>
    obtain ⟨rfl, rfl⟩ := Action.gives_pure.1 h
    exact ⟨[], rfl, .done⟩
  | cons e entries ih =>
    rw [List.forall_mem_cons] at he
    rw [buildEntries, List.mapM_cons] at h
    obtain ⟨o, w₁, first, h⟩ := Action.gives_bind.1 h
    obtain ⟨text, w₂, compiled, written⟩ := Action.gives_bind.1 first
    obtain ⟨rest, w₃, others, last⟩ := Action.gives_bind.1 h
    obtain ⟨rfl, rfl⟩ := Action.gives_pure.1 last
    obtain ⟨jobs, all, runs⟩ := ih (front ++ [(e, .written o)]) he.2 others
    refine ⟨(e, .written o) :: jobs, by simp [all], ?_⟩
    have runs : Runs c write b root out (front ++ (e, .written o) :: entries.map (·, .waiting)) w₁
        (front ++ (e, .written o) :: jobs) w₃ := by simpa using runs
    exact (runs_ready _ _ he.1 (Action.gives_during.1 compiled)).trans ((runs_written _ _ written).trans runs)

end Alone

/-- To build one entry after the other is to build them side by side. -/
theorem builds_of_build {w w' : σ} {outputs : List Output} (h : (b.build c write root out).Gives w outputs w') :
    Builds c write b root out w outputs w' := by
  have build_eq : b.build c write root out = (do
      let own ← b.buildEntries c write root out b.files
      let chunk ← b.buildChunk c write root out
      return own ++ chunk) := by
    rw [build_eq_chunk, buildChunk]
    cases b.chunk? with
    | none => simp
    | some d => simp
  rw [build_eq] at h
  obtain ⟨own, w₁, entries, h⟩ := Action.gives_bind.1 h
  obtain ⟨chunk, w₂, last, h⟩ := Action.gives_bind.1 h
  obtain ⟨rfl, rfl⟩ := Action.gives_pure.1 h
  obtain ⟨jobs, all, runs⟩ := runs_buildEntries [] (fun _ he => isEntry_of_mem he) entries
  exact .mk runs all last

/-! ### Jobs that agree -/

/-- The text of an output, given the files of each output and what is loaded for each file. -/
def textOf (b : Bundle) (L : Path → List Path) (F : Path → SourceFile) (p : Path) : String :=
  (((L p).map F).foldl Assembly.add {}).text b.options.joiner

/-- The output of a target, written with its text. -/
def outputOf (b : Bundle) (root out : Path) (L : Path → List Path) (F : Path → SourceFile) (p : Path) : Output :=
  ⟨outputPath root out p, (textOf b L F p).utf8ByteSize⟩

/-- In the worlds of `I done` the outputs of `done` have been written. The files of outputs are those of `L` there, and
loading them gives `F`. -/
structure Agreement (c : Collaborators σ) (write : Path → String → Action σ Output) (b : Bundle) (root out : Path)
    (I : List Path → σ → Prop) (L : Path → List Path) (F : Path → SourceFile) : Prop where
  filesOf : ∀ done, ∀ e ∈ b.files, (b.filesOf c e).Agrees (I done) (L e)
  common : ∀ d ∈ b.chunk?, L d = b.partition.common.toList
  load : ∀ done, ∀ p ∈ b.targets, ∀ q ∈ L p, (c.load q).Agrees (I done) (F q)
  emit : ∀ done event w, I done w → I done (c.emit event w)
  write : ∀ done, ∀ p ∈ b.targets, ∀ w o w', I done w →
    (write (outputPath root out p) (textOf b L F p)).Gives w o w' → o = outputOf b root out L F p ∧ I (p :: done) w'
  mono : ∀ done done' w, (∀ p ∈ done', p ∈ done) → I done w → I done' w

/-- The entries whose outputs have been written. -/
def finished (jobs : List (Path × Job)) : List Path :=
  jobs.filterMap fun (e, j) => match j with
    | .written _ => some e
    | _ => none

/-- A job has come to what it can only come to. -/
inductive Job.Fits (b : Bundle) (root out : Path) (L : Path → List Path) (F : Path → SourceFile) (e : Path) : Job → Prop
  | waiting : Fits b root out L F e .waiting
  | loading {front rest : List Path} {index : Nat} (h : L e = front ++ rest) :
    Fits b root out L F e (.loading (L e) index ((front.map F).foldl Assembly.add {}) rest)
  | ready : Fits b root out L F e (.ready (textOf b L F e))
  | written : Fits b root out L F e (.written (outputOf b root out L F e))

namespace Agreement

variable {I : List Path → σ → Prop} {L : Path → List Path} {F : Path → SourceFile}
  {front back jobs jobs' : List (Path × Job)} {w w' : σ} {j j' : Job}

/-- A job that goes on comes to what it can only come to. -/
theorem next (h : Agreement c write b root out I L F) (he : e ∈ b.files) (fits : j.Fits b root out L F e)
    (hw : I (finished (front ++ (e, j) :: back)) w) (k : (j.next c write b root out e).Gives w j' w') :
    j'.Fits b root out L F e ∧ I (finished (front ++ (e, j') :: back)) w' := by
  have target : e ∈ b.targets := List.mem_append_left _ he
  cases fits with
  | waiting =>
    obtain ⟨traced, w₁, tracing, last⟩ := Action.gives_bind.1 k
    obtain ⟨rfl, rfl⟩ := Action.gives_pure.1 last
    obtain ⟨rfl, hw₁⟩ := h.filesOf _ e he _ _ _ hw (Action.gives_during.1 tracing)
    have fits : Job.Fits b root out L F e (.loading (L e) 0 (([].map F).foldl Assembly.add {}) (L e)) := .loading rfl
    exact ⟨fits, by simpa [finished] using hw₁⟩
  | @loading loaded rest index parts =>
    cases rest with
    | nil =>
      obtain ⟨rfl, rfl⟩ := Action.gives_pure.1 k
      rw [List.append_nil] at parts
      refine ⟨?_, by simpa [finished] using hw⟩
      rw [← parts]
      exact .ready
    | cons p rest =>
      obtain ⟨file, w₁, loading, k⟩ := Action.gives_bind.1 k
      obtain ⟨u, w₂, emitting, last⟩ := Action.gives_bind.1 k
      obtain ⟨rfl, rfl⟩ := Action.gives_pure.1 last
      have needed : p ∈ L e := by simp [parts]
      obtain ⟨rfl, hw₁⟩ := h.load _ e target p needed _ _ _ hw (Action.gives_during.1 (Action.gives_during.1 loading))
      obtain ⟨-, hw₂⟩ := Action.Agrees.modify (h.emit _ _) _ _ _ hw₁ emitting
      have added : ((loaded ++ [p]).map F).foldl Assembly.add {} =
          ((loaded.map F).foldl Assembly.add {}).add (F p) := by
        rw [List.map_append, List.foldl_append]
        rfl
      refine ⟨?_, by simpa [finished] using hw₂⟩
      rw [← added]
      exact .loading (by simp [parts])
  | ready =>
    obtain ⟨o, w₁, writing, last⟩ := Action.gives_bind.1 k
    obtain ⟨rfl, rfl⟩ := Action.gives_pure.1 last
    obtain ⟨rfl, hw₁⟩ := h.write _ e target _ _ _ hw writing
    -- the world is one of the same outputs, though the new one stands elsewhere in the list
    refine ⟨.written, h.mono _ _ _ (fun p hp => ?_) hw₁⟩
    simp only [finished, List.filterMap_append, List.filterMap_cons, List.mem_append, List.mem_cons] at hp ⊢
    tauto
  | written =>
    obtain ⟨rfl, rfl⟩ := Action.gives_pure.1 k
    exact ⟨.written, hw⟩

/-- So do all jobs in a run. -/
theorem runs (h : Agreement c write b root out I L F) (k : Runs c write b root out jobs w jobs' w')
    (fits : ∀ x ∈ jobs, x.1 ∈ b.files ∧ x.2.Fits b root out L F x.1) (hw : I (finished jobs) w) :
    jobs'.map (·.1) = jobs.map (·.1) ∧ (∀ x ∈ jobs', x.2.Fits b root out L F x.1) ∧ I (finished jobs') w' := by
  induction k with
  | done => exact ⟨rfl, fun x hx => (fits x hx).2, hw⟩
  | step gives _ ih =>
    rw [List.forall_mem_append, List.forall_mem_cons] at fits
    obtain ⟨fits_front, ⟨he, fits_entry⟩, fits_back⟩ := fits
    obtain ⟨fits_next, hw₁⟩ := h.next he fits_entry hw gives
    obtain ⟨paths_eq, rest⟩ := ih (by
      rw [List.forall_mem_append, List.forall_mem_cons]
      exact ⟨fits_front, ⟨he, fits_next⟩, fits_back⟩) hw₁
    refine ⟨?_, rest⟩
    rw [paths_eq]
    simp

private theorem assembleFrom (h : Agreement c write b root out I L F) {p : Path} (hp : p ∈ b.targets) {ps : List Path}
    (hps : ∀ q ∈ ps, q ∈ L p) (done traced bundled : List Path) (index : Nat) (a : Assembly) :
    (assembleFrom c traced bundled index a ps).Agrees (I done) ((ps.map F).foldl Assembly.add a) := by
  induction ps generalizing index a with
  | nil => exact .pure a
  | cons q ps ih =>
    rw [List.forall_mem_cons] at hps
    refine (h.load done p hp q hps.1).during.bind ?_
    exact (Action.Agrees.modify (h.emit done _)).bind (ih hps.2 (index + 1) _)

private theorem buildChunk (h : Agreement c write b root out I L F) {done : List Path} {chunk : List Output}
    (hw : I done w) (k : (b.buildChunk c write root out).Gives w chunk w') :
    chunk = b.chunk?.toList.map (outputOf b root out L F) ∧ I (b.chunk?.toList ++ done) w' := by
  unfold Bundle.buildChunk at k
  cases hd : b.chunk? with
  | none =>
    rw [hd] at k
    obtain ⟨rfl, rfl⟩ := Action.gives_pure.1 k
    exact ⟨rfl, hw⟩
  | some d =>
    rw [hd] at k
    have target : d ∈ b.targets := List.mem_append_right _ (by simp [hd])
    have assembling := h.assembleFrom target (fun _ hq => hq) done (L d) [] 0 {}
    rw [h.common d hd] at assembling
    have assembled : (b.assemble c b.partition.common.toList []).Agrees (I done)
        (.ofFiles (b.partition.common.toList.map F) b.partition.common.toList [] b.options.joiner) := by
      unfold assemble
      refine assembling.bind ?_
      exact .pure _
    have compiling : (b.compileCommon c).Agrees (I done) (textOf b L F d) := by
      unfold textOf compileCommon
      rw [h.common d hd]
      refine assembled.bind ?_
      exact .pure _
    obtain ⟨text, w₁, compiled, k⟩ := Action.gives_bind.1 k
    obtain ⟨rfl, hw₁⟩ := compiling _ _ _ hw compiled
    obtain ⟨o, w₂, written, last⟩ := Action.gives_bind.1 k
    obtain ⟨rfl, rfl⟩ := Action.gives_pure.1 last
    obtain ⟨rfl, hw₂⟩ := h.write done d target _ _ _ hw₁ written
    exact ⟨rfl, hw₂⟩

/-- When all outputs have been written, they are what they can only be. -/
private theorem outputs_eq {own : List Output} (all : jobs.map (·.2) = own.map .written)
    (fits : ∀ x ∈ jobs, x.2.Fits b root out L F x.1) :
    own = (jobs.map (·.1)).map (outputOf b root out L F) ∧ finished jobs = jobs.map (·.1) := by
  induction jobs generalizing own with
  | nil =>
    cases own with
    | nil => exact ⟨rfl, rfl⟩
    | cons => cases all
  | cons x jobs ih =>
    cases own with
    | nil => cases all
    | cons o own =>
      obtain ⟨e, j⟩ := x
      rw [List.map_cons, List.map_cons, List.cons.injEq] at all
      obtain ⟨rfl, all⟩ := all
      rw [List.forall_mem_cons] at fits
      obtain ⟨rest_eq, finished_eq⟩ := ih all fits.2
      have fits_first : (Job.written o).Fits b root out L F e := fits.1
      cases fits_first with
      | written =>
        refine ⟨by rw [rest_eq, List.map_cons, List.map_cons], ?_⟩
        rw [List.map_cons, ← finished_eq]
        rfl

/-- Whatever the order, a build that succeeds writes the same outputs. -/
theorem builds (h : Agreement c write b root out I L F) {outputs : List Output} (hw : I [] w)
    (k : Builds c write b root out w outputs w') :
    outputs = b.targets.map (outputOf b root out L F) ∧ I b.targets w' := by
  obtain ⟨runs, all, last⟩ := k
  have none_finished : finished (b.files.map (·, .waiting)) = [] := by
    rw [finished, List.filterMap_map]
    exact List.filterMap_eq_nil_iff.2 fun _ _ => rfl
  obtain ⟨paths_eq, fits, hw₁⟩ := h.runs runs (fun x hx => by
    obtain ⟨e, he, rfl⟩ := List.mem_map.1 hx
    exact ⟨he, .waiting⟩) (by rwa [none_finished])
  obtain ⟨own_eq, finished_eq⟩ := outputs_eq all fits
  have files_eq : (b.files.map fun e => (e, Job.waiting)).map (·.1) = b.files := by
    rw [List.map_map]
    exact List.map_id _
  rw [paths_eq, files_eq] at own_eq finished_eq
  rw [finished_eq] at hw₁
  obtain ⟨chunk_eq, hw'⟩ := h.buildChunk hw₁ last
  refine ⟨by rw [own_eq, chunk_eq, targets, List.map_append], h.mono _ _ _ (fun p hp => ?_) hw'⟩
  rw [targets, List.mem_append] at hp
  exact List.mem_append.2 hp.symm

end Agreement

end ScriptBundler.Bundle
