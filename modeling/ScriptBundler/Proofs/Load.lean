import ScriptBundler.Proofs.Disk.Grow
import ScriptBundler.Proofs.Trace.Memory
import ScriptBundler.Workspace

/-!
# What is loaded while outputs are written

What is loaded for a file depends on the file and on what has been loaded before. `Workspace.loaded?` tells it from the
workspace in which a build begins. It stays right in the workspaces that are `Along` the build: the disk grows there,
but the files that are needed are spared, and what has been loaded for them since is what was told (`Along.load`).
-/

namespace ScriptBundler

variable {root p q : Path} {d : Disk} {m m' : LoadMemory} {f : SourceFile}

/-! ### Loads -/

private theorem Attempted.during_eq_ok {α : Type} {attempt : Attempt} {r : Attempted α} {a : α} :
    r.during attempt = .ok a ↔ r = .ok a := by
  cases r <;> simp [during]

private theorem Attempted.of_eq_ok {ε α : Type} {cause : ε → Cause} {r : Except ε α} {a : α} :
    Attempted.of cause r = .ok a ↔ r = .ok a := by
  cases r <;> simp [Attempted.of]

/-- The file at a path that has the given text. -/
def SourceFile.ofText? (root p : Path) (text : String) : Option SourceFile :=
  match loadFresh.extracted text with
  | .ok (some (code, map)) => some ⟨code, map⟩
  | .ok none => some ⟨text, SourceMap.identity (sourceName root p) text⟩
  | .error _ => none

theorem Disk.exists_of_readText {text : String} (h : d.readText p = .ok text) : ∃ location content time,
    d.locate p = .ok location ∧ d.node? location = some (.file content time) ∧ String.fromUTF8? content = some text := by
  obtain ⟨bytes, read, decoded⟩ := Action.bind_eq_ok.1 h
  obtain ⟨node, found, read⟩ := Action.bind_eq_ok.1 read
  obtain ⟨location, located, there⟩ := stat_eq_ok.1 found
  split at read
  · cases read
    split at decoded
    · rename_i text' e
      cases decoded
      exact ⟨location, bytes, _, located, there, e⟩
    · cases decoded
  · cases read
  · cases read

theorem Disk.exists_of_modified? {time : Nat} (h : d.modified? p = some time) : ∃ location, d.locate p = .ok location ∧
    (d.node? location = some (.directory time) ∨ ∃ content, d.node? location = some (.file content time)) := by
  unfold modified? at h
  split at h
  · rename_i content t found
    cases h
    obtain ⟨location, located, there⟩ := stat_eq_ok.1 found
    exact ⟨location, located, .inr ⟨content, there⟩⟩
  · rename_i t found
    cases h
    obtain ⟨location, located, there⟩ := stat_eq_ok.1 found
    exact ⟨location, located, .inl there⟩
  · cases h

theorem modified?_of_file {location : Location} {content : ByteArray} {time : Nat} (hl : d.locate p = .ok location)
    (hn : d.node? location = some (.file content time)) : d.modified? p = some time := by
  have found : d.stat p = .ok (.file content time) := Disk.stat_eq_ok.2 ⟨location, hl, hn⟩
  unfold Disk.modified?
  rw [found]

theorem exists_of_loadFresh (h : loadFresh root d p = .ok f) : ∃ text, d.readText p = .ok text ∧
    SourceFile.ofText? root p text = some f := by
  obtain ⟨text, read, h⟩ := Action.bind_eq_ok.1 h
  refine ⟨text, Attempted.of_eq_ok.1 (Attempted.during_eq_ok.1 read), ?_⟩
  obtain ⟨found, extracted, h⟩ := Action.bind_eq_ok.1 h
  unfold SourceFile.ofText?
  rw [Attempted.during_eq_ok.1 extracted]
  rcases found with _ | ⟨code, map⟩
  · cases h
    rfl
  · cases h
    rfl

namespace LoadMemory

/-- What is remembered of a file, unless that has been changed at another time. -/
def current? (m : LoadMemory) (d : Disk) (p : Path) : Option SourceFile :=
  ((m.find? (·.path == p)).filter fun l => l.modified.isSome ∧ l.modified = d.modified? p).map (·.file)

theorem current?_eq_some : m.current? d p = some f ↔
    ∃ l time, m.find? (·.path == p) = some l ∧ l.modified = some time ∧ d.modified? p = some time ∧ l.file = f := by
  unfold current?
  simp only [Option.map_eq_some_iff, Option.filter_eq_some_iff, decide_eq_true_eq, Option.isSome_iff_exists]
  constructor
  · rintro ⟨l, ⟨found, ⟨time, e⟩, same⟩, rfl⟩
    exact ⟨l, time, found, e, same.symm.trans e, rfl⟩
  · rintro ⟨l, time, found, e, now, rfl⟩
    exact ⟨l, ⟨found, ⟨time, e⟩, e.trans now.symm⟩, rfl⟩

/-- What is remembered and current is given. -/
theorem loadFile_of_current (known : m.current? d p = some f) :
    loadFile root d p m = ((.ok f, m) : Attempted SourceFile × LoadMemory) := by
  obtain ⟨l, time, found, dated, now, rfl⟩ := current?_eq_some.1 known
  have current : (d.modified? p).isSome ∧ l.modified = d.modified? p := by simp [now, dated]
  unfold loadFile
  rw [Action.get_bind_apply, found]
  dsimp only
  rw [if_pos current]
  rfl

/-- All else is loaded from the disk and remembered, unless that fails. -/
theorem loadFile_of_stale (stale : m.current? d p = none) : loadFile root d p m = (match loadFresh root d p with
    | .ok f => (.ok f, ⟨p, d.modified? p, f⟩ :: m.filter (!·.path == p))
    | .error e => ((.error e, m) : Attempted SourceFile × LoadMemory)) := by
  have fresh : loadFile root d p m = loadFile.fresh root d p (d.modified? p) m := by
    unfold loadFile
    rw [Action.get_bind_apply]
    rcases found : m.find? (·.path == p) with _ | l
    · rw [found]
    · rw [found]
      refine congrFun (if_neg fun ⟨there, same⟩ => ?_) m
      obtain ⟨time, now⟩ := Option.isSome_iff_exists.1 there
      rw [current?_eq_some.2 ⟨l, time, found, same.trans now, now, rfl⟩] at stale
      cases stale
  rw [fresh, loadFile.fresh, Action.bind_apply]
  show (match ((loadFresh root d p, m) : Attempted SourceFile × LoadMemory) with | _ => _) = _
  cases loadFresh root d p <;> rfl

end LoadMemory

/-- A file is loaded from memory, or else from the disk. -/
private theorem gives_loadFile (h : (loadFile root d p).Gives m f m') :
    (∃ l time, m.find? (·.path == p) = some l ∧ l.modified = some time ∧ d.modified? p = some time ∧
        f = l.file ∧ m' = m) ∨
      ((∀ l time, m.find? (·.path == p) = some l → l.modified = some time → d.modified? p ≠ some time) ∧
        loadFresh root d p = .ok f ∧ m' = ⟨p, d.modified? p, f⟩ :: m.filter (!·.path == p)) := by
  unfold Action.Gives at h
  rcases known : m.current? d p with _ | g
  · rw [LoadMemory.loadFile_of_stale known] at h
    refine .inr ⟨fun l time found dated now => ?_, ?_⟩
    · rw [LoadMemory.current?_eq_some.2 ⟨l, time, found, dated, now, rfl⟩] at known
      cases known
    · rcases fresh : loadFresh root d p with e | g
      · rw [fresh] at h
        cases h
      · rw [fresh] at h
        cases h
        exact ⟨rfl, rfl⟩
  · rw [LoadMemory.loadFile_of_current known] at h
    cases h
    obtain ⟨l, time, found, dated, now, rfl⟩ := LoadMemory.current?_eq_some.1 known
    exact .inl ⟨l, time, found, dated, now, rfl, rfl⟩

/-- What is remembered of a file when another one has been loaded, or the same. -/
theorem find?_remember {modified : Option Nat} :
    ((⟨p, modified, f⟩ : LoadedFile) :: m.filter (!·.path == p)).find? (·.path == q) =
      if (p == q) = true then some ⟨p, modified, f⟩ else m.find? (·.path == q) := by
  rw [List.find?_cons]
  by_cases same : (p == q) = true
  · simp [same]
  · rw [if_neg same]
    simp only [same]
    rw [List.find?_filter]
    congr 1
    funext l
    by_cases hq : (l.path == q) = true
    · have hp : ¬ (l.path == p) = true := fun hp => same (BEq.trans (BEq.symm hp) hq)
      simp [hq, hp]
    · simp [hq]

/-! ### Loads along a build -/

namespace Workspace

variable {w w' w'' : Workspace} {N : List Path}

/-- What is loaded for a path as long as its file stays. If there is none, only what is remembered can be loaded. -/
def loaded? (root : Path) (w : Workspace) (p : Path) : Option SourceFile :=
  let known := w.loads.find? (·.path == p)
  match (w.disk.goal? p).bind w.disk.node? with
  | some (.file content time) =>
    match known.filter (·.modified = some time) with
    | some l => some l.file
    | none => (String.fromUTF8? content).bind (SourceFile.ofText? root p)
  | _ => known.map (·.file)

/-- A workspace that is reached from another one in which the given paths are needed. -/
structure Along (root : Path) (N : List Path) (w w' : Workspace) : Prop where
  imports : w.imports.Within w'.imports
  grows : w.disk.Grows w'.disk
  spared : ∀ p ∈ N, ∀ k, w.disk.goal? p = some k → Disk.Spared (w.disk.node? k) (w'.disk.node? k)
  /-- A file has been loaded since only as it was to be. -/
  loads : ∀ p ∈ N, w'.loads.find? (·.path == p) = w.loads.find? (·.path == p) ∨ ∃ k content time f,
    w.disk.goal? p = some k ∧ w.disk.node? k = some (.file content time) ∧
      w'.loads.find? (·.path == p) = some ⟨p, some time, f⟩ ∧ w.loaded? root p = some f

theorem Along.refl (root : Path) (N : List Path) (w : Workspace) : Along root N w w :=
  ⟨.refl _, .refl _, fun _ _ _ _ => .same, fun _ _ => .inl rfl⟩

private theorem gives_onLoads {α : Type} {x : Disk → Action LoadMemory α} {a : α} :
    (onLoads x).Gives w a w' ↔ ∃ m, (x w.disk).Gives w.loads a m ∧ w' = { w with loads := m } := by
  have e : onLoads x w = ((x w.disk w.loads).1, { w with loads := (x w.disk w.loads).2 }) := rfl
  unfold Action.Gives
  rw [e]
  rcases x w.disk w.loads with ⟨f | b, m⟩ <;> simp [eq_comm]

private theorem gives_load {aliases : AliasTable} : ((collaborators root aliases).load p).Gives w f w' ↔
    ∃ m, (loadFile root w.disk p).Gives w.loads f m ∧ w' = { w with loads := m } :=
  gives_onLoads (x := fun d => loadFile root d p)

/-- The file at the goal of a path, if it is there now, was there before. -/
private theorem Along.was_file (h : Along root N w w') (hp : p ∈ N) {location : Location} {content : ByteArray}
    {time : Nat}
    (located : w'.disk.locate p = .ok location) (there : w'.disk.node? location = some (.file content time)) :
    w.disk.goal? p = some location ∧ w.disk.node? location = some (.file content time) := by
  have goal_eq : w.disk.goal? p = some location := by
    rw [← h.grows.goal? p]
    exact Disk.goal?_of_locate located
  have spared := h.spared p hp location goal_eq
  rw [there] at spared
  exact ⟨goal_eq, spared.eq_file⟩

/-- What is remembered as current is loaded as it was to be. -/
private theorem Along.known (h : Along root N w w') (hp : p ∈ N) {l : LoadedFile} {time : Nat}
    (known : w'.loads.find? (·.path == p) = some l) (current : l.modified = some time)
    (now : w'.disk.modified? p = some time) : w.loaded? root p = some l.file := by
  rcases h.loads p hp with before | ⟨k, content, time', f, -, -, since, loaded⟩
  · rw [known] at before
    obtain ⟨location, located, there⟩ := Disk.exists_of_modified? now
    have goal_eq : w.disk.goal? p = some location := by
      rw [← h.grows.goal? p]
      exact Disk.goal?_of_locate located
    unfold loaded?
    rw [goal_eq, ← before]
    rcases there with directory | ⟨content, file⟩
    · have spared := h.spared p hp location goal_eq
      rw [directory] at spared
      generalize was : w.disk.node? location = node at spared
      cases spared <;> simp [was]
    · have was := (h.was_file hp located file).2
      simp [was, current, Option.filter]
  · rw [known] at since
    cases since
    exact loaded

/-- What is not remembered as current is loaded as it was to be, too. -/
private theorem Along.fresh (h : Along root N w w') (hp : p ∈ N)
    (stale : ∀ l time, w'.loads.find? (·.path == p) = some l → l.modified = some time → w'.disk.modified? p ≠ some time)
    (loading : loadFresh root w'.disk p = .ok f) : w.loaded? root p = some f ∧ ∃ k content time,
      w.disk.goal? p = some k ∧ w.disk.node? k = some (.file content time) ∧ w'.disk.modified? p = some time := by
  obtain ⟨text, read, is_file⟩ := exists_of_loadFresh loading
  obtain ⟨location, content, time, located, there, decoded⟩ := Disk.exists_of_readText read
  obtain ⟨goal_eq, was⟩ := h.was_file hp located there
  have now := modified?_of_file located there
  refine ⟨?_, location, content, time, goal_eq, was, now⟩
  have unknown : (w.loads.find? (·.path == p)).filter (·.modified = some time) = none := by
    rw [Option.filter_eq_none_iff]
    intro l known
    rcases h.loads p hp with before | ⟨k, content', time', f', goal', was', since, -⟩
    · rw [← before] at known
      simpa using fun current => stale l time known current now
    · -- what has been loaded since is current, and would not have been loaded anew
      rw [goal_eq] at goal'
      cases goal'
      rw [was] at was'
      cases was'
      exact absurd now (stale _ time since rfl)
  unfold loaded?
  simp only [goal_eq, Option.bind_some, was, unknown, decoded, is_file]

/-- A needed file is loaded as it was to be, if paths that are needed have one spelling each. -/
theorem Along.load {aliases : AliasTable} (spelled : ∀ p ∈ N, ∀ q ∈ N, (p == q) = true → p = q)
    (h : Along root N w w') (hp : p ∈ N) (k : ((collaborators root aliases).load p).Gives w' f w'') :
    w.loaded? root p = some f ∧ w''.disk = w'.disk ∧ Along root N w w'' := by
  obtain ⟨m, loading, rfl⟩ := gives_load.1 k
  rcases gives_loadFile loading with ⟨l, time, known, current, now, rfl, rfl⟩ | ⟨stale, fresh, rfl⟩
  · exact ⟨h.known hp known current now, rfl, h⟩
  · obtain ⟨loaded, location, content, time, goal_eq, was, now⟩ := h.fresh hp stale fresh
    refine ⟨loaded, rfl, h.imports, h.grows, h.spared, fun q hq => ?_⟩
    rw [find?_remember]
    by_cases same : (p == q) = true
    · rw [if_pos same, now, ← spelled p hp q hq same]
      exact .inr ⟨location, content, time, f, goal_eq, was, rfl, loaded⟩
    · rw [if_neg same]
      exact h.loads q hq

end Workspace

end ScriptBundler
