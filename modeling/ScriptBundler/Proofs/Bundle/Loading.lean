import ScriptBundler.Proofs.Bundle.Output

/-!
# What is asked for while an output is made

Collaborators may take notes of what they are asked for (`Collaborators.noting`), which changes nothing else (`Noted`).
The notes show that an output is made in phases: all entries are traced, and then the files are loaded one after the
other, each with its event, up to the first that cannot be loaded (`compile_phases`). As long as it is not known which
files there are to be in the end, nothing is loaded and no event is emitted.
-/

namespace ScriptBundler

variable {σ α β : Type}

/-- What a bundle asks for. -/
inductive Occurrence where
  | trace (ps : List Path)
  | load (p : Path)
  | emit (e : Event)

/-- The notes of traces of single paths. -/
def Occurrence.traces (ps : List Path) : List Occurrence := ps.map fun p => .trace [p]

namespace Action

/-- An action that is noted when it has been done, failed or not. -/
def noted (o : Occurrence) (x : Action σ α) : Action (σ × List Occurrence) α := fun (w, log) =>
  let (r, w) := x w
  (r, (w, log ++ [o]))

end Action

/-- The same collaborators with a log of what they are asked for. -/
def Collaborators.noting (c : Collaborators σ) : Collaborators (σ × List Occurrence) where
  trace ps := (c.trace ps).noted (.trace ps)
  load p := (c.load p).noted (.load p)
  isThere w p := c.isThere w.1 p
  disk w := c.disk w.1
  emit e w := (c.emit e w.1, w.2 ++ [.emit e])

/-! ### Actions and their notes -/

/-- Begun in the world `w`, both actions have the result `r` and leave the world `w'`. The second one notes `more`. -/
structure Noted (x : Action σ α) (y : Action (σ × List Occurrence) α) (w : σ) (r : Attempted α) (w' : σ)
    (more : List Occurrence) : Prop where
  result : @Eq (Attempted α × σ) (x w) (r, w')
  notes : ∀ log, @Eq (Attempted α × (σ × List Occurrence)) (y (w, log)) (r, (w', log ++ more))

namespace Noted

variable {x : Action σ α} {y : Action (σ × List Occurrence) α} {f : α → Action σ β}
  {g : α → Action (σ × List Occurrence) β} {w w₁ w' : σ} {a : α} {e : Failure} {r : Attempted β}
  {more more' : List Occurrence}

private theorem pure (a : α) (w : σ) : Noted (Pure.pure a) (Pure.pure a) w (.ok a) w [] where
  result := rfl
  notes log := by
    rw [List.append_nil]
    rfl

private theorem bind (h : Noted x y w (.ok a) w₁ more) (k : Noted (f a) (g a) w₁ r w' more') :
    Noted (x >>= f) (y >>= g) w r w' (more ++ more') where
  result := by
    rw [Action.bind_apply, h.result]
    exact k.result
  notes log := by
    rw [Action.bind_apply, h.notes log, ← List.append_assoc]
    exact k.notes (log ++ more)

private theorem bind_error (h : Noted x y w (.error e) w' more) : Noted (x >>= f) (y >>= g) w (.error e) w' more where
  result := by rw [Action.bind_apply, h.result]
  notes log := by rw [Action.bind_apply, h.notes log]

/-- What is done with an answer changes nothing else. -/
private theorem map {r : Attempted α} (f : α → β) (h : Noted x y w r w' more) :
    Noted (x >>= fun a => Pure.pure (f a)) (y >>= fun a => Pure.pure (f a)) w (r.map f) w' more := by
  rcases r with e | a
  · exact h.bind_error
  · have k := h.bind (f := fun a => Pure.pure (f a)) (g := fun a => Pure.pure (f a)) (.pure (f a) w')
    rwa [List.append_nil] at k

private theorem during {r : Attempted α} (attempt : Attempt) (h : Noted x y w r w' more) :
    Noted (x.during attempt) (y.during attempt) w (r.during attempt) w' more where
  result := by rw [Action.during, h.result]
  notes log := by rw [Action.during, h.notes log]

private theorem noted (o : Occurrence) (x : Action σ α) (w : σ) : Noted x (x.noted o) w (x w).1 (x w).2 [o] :=
  ⟨rfl, fun _ => rfl⟩

end Noted

namespace Bundle

variable {c : Collaborators σ} {b : Bundle} {traced bundled front : List Path} {w w' : σ} {files : List SourceFile}

/-! ### Expanding and tracing -/

private theorem expand_noted (c : Collaborators σ) (patterns : List String) (w : σ) :
    ∃ r, Noted (expand c patterns) (expand c.noting patterns) w r w [] := by
  rcases e : Glob.expand (c.disk w) patterns with ⟨pattern, fault⟩ | found
  · refine ⟨(Attempted.of .glob (.error fault)).during (.expandPattern pattern), ?_, fun log => ?_⟩
    · simp only [expand, Action.get_bind_apply, e]
      rfl
    · simp only [expand, Collaborators.noting, Action.get_bind_apply, e, List.append_nil]
      rfl
  · refine ⟨.ok found.toList, ?_, fun log => ?_⟩
    · simp only [expand, Action.get_bind_apply, e]
      rfl
    · simp only [expand, Collaborators.noting, Action.get_bind_apply, e, List.append_nil]
      rfl

private theorem requested_noted (c : Collaborators σ) (b : Bundle) (ps : List Path) (w : σ) :
    ∃ r, Noted (b.requested c ps) (b.requested c.noting ps) w r w [] := by
  induction ps with
  | nil => exact ⟨_, .pure [] w⟩
  | cons p ps ih =>
    obtain ⟨r, rest⟩ := ih
    rw [requested, requested]
    by_cases entry : b.isEntry p = true
    · simp only [if_pos entry, pure_bind]
      exact ⟨_, rest.map ([p] ++ ·)⟩
    · simp only [if_neg entry]
      obtain ⟨e | here, expanded⟩ := expand_noted c [p.text] w
      · exact ⟨.error e, expanded.bind_error⟩
      · exact ⟨_, expanded.bind (rest.map (here ++ ·))⟩

private theorem filesOf_noted (c : Collaborators σ) (b : Bundle) (p : Path) (w : σ) :
    ∃ r w', Noted (b.filesOf c p) (b.filesOf c.noting p) w r w' [.trace [p]] := by
  let brought (fs : List TracedFile) : List Path := b.listing p (fs.map (·.path))
  exact ⟨_, _, (Noted.noted (.trace [p]) (c.trace [p]) w).map brought⟩

/-- All entries are traced, one after the other, up to the first for which that fails. -/
private theorem workingList_noted (c : Collaborators σ) (b : Bundle) (ps : List Path) (w : σ) : ∃ r w' entries,
    Noted (b.workingList c ps) (b.workingList c.noting ps) w r w' (Occurrence.traces entries) ∧
      ∀ lists, r = .ok lists → entries = lists.2 := by
  induction ps generalizing w with
  | nil => exact ⟨_, w, [], .pure ([], []) w, fun lists e => by cases e; rfl⟩
  | cons p ps ih =>
    rw [workingList, workingList]
    by_cases entry : b.isEntry p = true
    · simp only [if_pos entry]
      obtain ⟨e | files, w₁, here⟩ := filesOf_noted c b p w
      · exact ⟨.error e, w₁, [p], here.bind_error, fun _ e => by cases e⟩
      · obtain ⟨r, w', entries, rest, lists_eq⟩ := ih w₁
        refine ⟨_, w', p :: entries, here.bind (rest.map fun lists => (files ++ lists.1, p :: lists.2)), ?_⟩
        rintro _ e
        obtain ⟨lists, rfl, rfl⟩ := Action.map_eq_ok.1 e
        rw [lists_eq lists rfl]
    · simp only [if_neg entry]
      exact ih w

/-- The files of an output and its entries, as they are found before anything is loaded. -/
def lists (c : Collaborators σ) (b : Bundle) (paths : Option (List Path)) : Action σ (List Path × List Path) := do
  b.workingList c (← b.asked c paths)

private theorem compileOutput_eq_lists (c : Collaborators σ) (b : Bundle) (paths : Option (List Path)) :
    b.compileOutput c paths = b.lists c paths >>= fun lists => b.assemble c lists.1 lists.2 := by
  rw [compileOutput_eq, lists, bind_assoc]

private theorem lists_noted (c : Collaborators σ) (b : Bundle) (paths : Option (List Path)) (w : σ) : ∃ r w' entries,
    Noted (b.lists c paths) (b.lists c.noting paths) w r w' (Occurrence.traces entries) ∧
      ∀ lists, r = .ok lists → entries = lists.2 := by
  have asked : ∃ r, Noted (b.asked c paths) (b.asked c.noting paths) w r w [] := by
    cases paths with
    | none => exact ⟨_, .pure b.files w⟩
    | some ps => exact requested_noted c b ps w
  obtain ⟨e | entries, asked⟩ := asked
  · exact ⟨.error e, w, [], asked.bind_error, fun _ e => by cases e⟩
  · obtain ⟨r, w', traced, found, lists_eq⟩ := workingList_noted c b entries w
    exact ⟨r, w', traced, asked.bind found, lists_eq⟩

/-! ### Loading -/

/-- Files are loaded one after the other, and an event tells of each. -/
inductive Loads (c : Collaborators σ) (traced bundled : List Path) :
    Nat → List Path → σ → List SourceFile → σ → Prop where
  | none {n : Nat} {w : σ} : Loads c traced bundled n [] w [] w
  | next {n : Nat} {p : Path} {ps : List Path} {w w₁ w' : σ} {file : SourceFile} {files : List SourceFile}
    (h : (c.load p).Gives w file w₁)
    (k : Loads c traced bundled (n + 1) ps (c.emit ⟨p, n, traced, bundled⟩ w₁) files w') :
    Loads c traced bundled n (p :: ps) w (file :: files) w'

/-- The notes of that: each file is loaded, and then its event is emitted, with the place of the file and the lists of
all files and entries. -/
def progress (traced bundled : List Path) (n : Nat) (ps : List Path) : List Occurrence :=
  (ps.zipIdx n).flatMap fun (p, i) => [.load p, .emit ⟨p, i, traced, bundled⟩]

private theorem progress_cons (n : Nat) (p : Path) (ps : List Path) : progress traced bundled n (p :: ps) =
    [.load p] ++ ([.emit ⟨p, n, traced, bundled⟩] ++ progress traced bundled (n + 1) ps) := by
  rw [progress, List.zipIdx_cons, List.flatMap_cons]
  rfl

/-- How the loading of files ends: all are loaded, or one of them cannot be. -/
inductive LoadEnds (c : Collaborators σ) (traced bundled : List Path) (n : Nat) (ps : List Path)
    (finish : List SourceFile → α) (w : σ) : Attempted α → σ → List Occurrence → Prop where
  | all {files : List SourceFile} {w' : σ} (h : Loads c traced bundled n ps w files w') :
    LoadEnds c traced bundled n ps finish w (.ok (finish files)) w' (progress traced bundled n ps)
  | refused {front rest : List Path} {p : Path} {files : List SourceFile} {f : Failure} {w₁ w' : σ}
    (split : ps = front ++ p :: rest) (h : Loads c traced bundled n front w files w₁) (k : (c.load p).Refuses w₁ f w') :
    LoadEnds c traced bundled n ps finish w (Attempted.during (.loadFile p) (.error f)) w'
      (progress traced bundled n front ++ [.load p])

private theorem LoadEnds.map {finish : List SourceFile → α} {n : Nat} {ps : List Path} {r : Attempted α}
    {more : List Occurrence} (h : LoadEnds c traced bundled n ps finish w r w' more) (g : α → β) :
    LoadEnds c traced bundled n ps (fun files => g (finish files)) w (r.map g) w' more := by
  cases h with
  | all h => exact .all h
  | refused split h k => exact .refused split h k

private theorem emit_noted (c : Collaborators σ) (e : Event) (w : σ) :
    Noted (modify (c.emit e)) (modify (c.noting.emit e)) w (.ok ⟨⟩) (c.emit e w) [.emit e] := ⟨rfl, fun _ => rfl⟩

private theorem assembleFrom_noted (c : Collaborators σ) (traced bundled : List Path) (n : Nat) (a : Assembly)
    (ps : List Path) (w : σ) : ∃ r w' more, LoadEnds c traced bundled n ps (·.foldl Assembly.add a) w r w' more ∧
      Noted (assembleFrom c traced bundled n a ps) (assembleFrom c.noting traced bundled n a ps) w r w' more := by
  induction ps generalizing n a w with
  | nil => exact ⟨_, w, _, .all .none, .pure a w⟩
  | cons p ps ih =>
    have loading := (Noted.noted (.load p) (c.load p) w).during (.loadFile p)
    rcases e : c.load p w with ⟨f | file, w₁⟩
    · rw [e] at loading
      exact ⟨_, w₁, _, .refused (List.nil_append _).symm .none e, loading.bind_error⟩
    · rw [e] at loading
      have told := emit_noted c ⟨p, n, traced, bundled⟩ w₁
      obtain ⟨r, w', more, ends, rest⟩ := ih (n + 1) (a.add file) (c.emit ⟨p, n, traced, bundled⟩ w₁)
      refine ⟨r, w', [.load p] ++ ([.emit ⟨p, n, traced, bundled⟩] ++ more), ?_, loading.bind (told.bind rest)⟩
      cases ends with
      | all h =>
        rw [← progress_cons]
        exact .all (.next e h)
      | refused split h k =>
        rw [← List.append_assoc, ← List.append_assoc, List.append_assoc [Occurrence.load p], ← progress_cons]
        exact .refused (by rw [split]; rfl) (.next e h) k

private theorem assemble_noted (c : Collaborators σ) (b : Bundle) (traced bundled : List Path) (w : σ) : ∃ r w' more,
    LoadEnds c traced bundled 0 traced (.ofFiles · traced bundled b.options.joiner) w r w' more ∧
      Noted (b.assemble c traced bundled) (b.assemble c.noting traced bundled) w r w' more := by
  obtain ⟨r, w', more, ends, noted⟩ := assembleFrom_noted c traced bundled 0 {} traced w
  let finish (a : Assembly) : Compiled :=
    ⟨a.blocks, a.combined.finish, a.combined.offsets, traced, bundled, b.options.joiner⟩
  exact ⟨_, w', more, ends.map finish, noted.map finish⟩

/-! ### Making an output -/

/-- An output is made in phases. If the files it is to hold are not found, nothing is loaded. Otherwise all entries have
been traced, and the files are loaded in their order, each with an event that tells its place and all files and entries,
up to the first that cannot be loaded. Common files are loaded in the same way, without a trace. -/
theorem compile_phases (c : Collaborators σ) (b : Bundle) (paths : Option (List Path)) (w : σ) :
    (∀ f w₁, (b.lists c paths).Refuses w f w₁ → ∃ entries : List Path,
      Noted (b.compileOutput c paths) (b.compileOutput c.noting paths) w (.error f) w₁ (Occurrence.traces entries)) ∧
    (∀ traced bundled w₁, (b.lists c paths).Gives w (traced, bundled) w₁ → ∃ r w' more,
      LoadEnds c traced bundled 0 traced (.ofFiles · traced bundled b.options.joiner) w₁ r w' more ∧
      Noted (b.compileOutput c paths) (b.compileOutput c.noting paths) w r w'
        (Occurrence.traces bundled ++ more)) ∧
    ∃ r w' more, LoadEnds c b.partition.common.toList [] 0 b.partition.common.toList
        (fun files => (Compiled.ofFiles files b.partition.common.toList [] b.options.joiner).render) w r w' more ∧
      Noted (b.compileCommon c) (b.compileCommon c.noting) w r w' more := by
  obtain ⟨r, w₁, entries, found, lists_eq⟩ := lists_noted c b paths w
  rw [compileOutput_eq_lists, compileOutput_eq_lists]
  refine ⟨fun f w' refused => ?_, fun traced bundled w' gives => ?_, ?_⟩
  · cases found.result.symm.trans refused
    exact ⟨entries, found.bind_error⟩
  · cases found.result.symm.trans gives
    rw [lists_eq _ rfl] at found
    obtain ⟨r, w', more, ends, loading⟩ := assemble_noted c b traced bundled w₁
    exact ⟨r, w', more, ends, found.bind loading⟩
  · obtain ⟨r, w', more, ends, loading⟩ := assemble_noted c b b.partition.common.toList [] w
    exact ⟨_, w', more, ends.map Compiled.render, loading.map Compiled.render⟩

/-- Two files that need a third, and the second of them is not there. -/
def halfThere : Collaborators Unit :=
  { Collaborators.ofGraph fork [] with
    load := fun p => if p.text = "b" then Action.fail (.absent p) else pure ⟨p.text, .identity p.text p.text⟩ }

/-- Both are traced, and three files are loaded before the one that is not there. -/
theorem compile_phases_halfThere : ∃ b traced bundled r more, b = ofGraph fork [] ["a", "b"] {} ∧
    (b.lists halfThere none).Gives () (traced, bundled) () ∧
    LoadEnds halfThere traced bundled 0 traced (.ofFiles · traced bundled b.options.joiner) () r () more ∧
    Noted (b.compileOutput halfThere none) (b.compileOutput halfThere.noting none) () r ()
      (Occurrence.traces bundled ++ more) ∧
    (match r with | .error f => f.headline | .ok _ => "") = "Failed to load b" ∧
    ((Occurrence.traces bundled ++ more).map fun
      | .trace ps => ("trace", ps.map (·.text))
      | .load p => ("load", [p.text])
      | .emit e => ("emit", [e.path.text])) =
      [("trace", ["a"]), ("trace", ["b"]), ("load", ["s"]), ("emit", ["s"]), ("load", ["a"]), ("emit", ["a"]),
        ("load", ["s"]), ("emit", ["s"]), ("load", ["b"])] := by
  have found := Action.gives_of_isOk (x := (ofGraph fork [] ["a", "b"] {}).lists halfThere none) (by decide +kernel)
  obtain ⟨-, given, -⟩ := compile_phases halfThere (ofGraph fork [] ["a", "b"] {}) none ()
  obtain ⟨r, _, more, ends, noted⟩ := given _ _ _ found
  refine ⟨_, _, _, r, more, rfl, found, ends, noted, ?_, ?_⟩
  · rw [show r = ((ofGraph fork [] ["a", "b"] {}).compileOutput halfThere none ()).1 by rw [noted.result]]
    decide +kernel
  · have log_eq : ((ofGraph fork [] ["a", "b"] {}).compileOutput halfThere.noting none ((), [])).2.2 =
        Occurrence.traces [⟨"a"⟩, ⟨"b"⟩] ++ more := by rw [noted.notes [], List.nil_append]
    rw [← log_eq]
    decide +kernel

end Bundle

end ScriptBundler
