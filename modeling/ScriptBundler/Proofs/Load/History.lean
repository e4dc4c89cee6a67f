import ScriptBundler.Proofs.Load.Record

/-!
# Loaders on changing disks

A loader is asked for one file after the other, and between its loads the disk may change in any way: files are written,
removed and put back. As long as two different things that have stood at a path never bear the same time, what is
remembered with the time of today is what stands there today (`Records.loadFile_eq_of_dated`). So each load answers what a
new loader would answer, even if loads before it have failed (`LoadStep.answers_eq_new`).
-/

namespace ScriptBundler

variable {root p : Path} {d e : Disk} {ds : List Disk} {m : LoadMemory} {l : LoadedFile}

/-! ### One load -/

/-- What is loaded from a disk depends on what stands at the path, and on nothing else there. -/
private theorem loadFresh_of_stat (same : e.stat p = d.stat p) : loadFresh root e p = loadFresh root d p := by
  have read_eq : e.readText p = d.readText p := by
    rw [Disk.readText, Disk.readText, Disk.readBytes, Disk.readBytes, same]
  rw [loadFresh, loadFresh, read_eq]

namespace LoadMemory

/-- A load from memory is one from the disk, if what stood at the path when it bore the time of today stands there now. -/
theorem Records.loadFile_eq_of_dated (h : m.Records root ds)
    (dated : ∀ e ∈ ds, (e.modified? p).isSome = true → e.modified? p = d.modified? p → e.stat p = d.stat p)
    (spelled : ∀ l ∈ m, (l.path == p) = true → l.path = p) : (loadFile root d p m).1 = loadFresh root d p := by
  rw [loadFile_fst]
  rcases known : m.current? d p with _ | f
  · rfl
  · obtain ⟨l, time, found, modified, now, rfl⟩ := current?_eq_some.1 known
    have remembered : l ∈ m := List.mem_of_find?_eq_some found
    have asked := List.find?_some found
    obtain ⟨e, he, since, loaded⟩ := h l remembered
    rw [spelled l remembered asked] at since loaded
    have then_eq : e.modified? p = some time := since.symm.trans modified
    have same := dated e he (by rw [then_eq]; rfl) (then_eq.trans now.symm)
    rw [loadFresh_of_stat same] at loaded
    exact loaded.symm

private theorem loadFile_new (root : Path) (d : Disk) (p : Path) : (loadFile root d p []).1 = loadFresh root d p := by
  rw [loadFile_fst]
  rfl

/-- A load adds at most the file that was asked for. -/
private theorem path_eq_or_mem_of_mem_load (hl : l ∈ (loadFile root d p m).2) : l.path = p ∨ l ∈ m := by
  rcases known : m.current? d p with _ | f
  · rw [loadFile_of_stale known] at hl
    rcases loaded : loadFresh root d p with error | f
    · rw [loaded] at hl
      exact .inr hl
    · rw [loaded] at hl
      rcases List.mem_cons.1 hl with rfl | hl
      · exact .inl rfl
      · exact .inr (List.mem_filter.1 hl).1
  · rw [loadFile_of_current known] at hl
    exact .inr hl

end LoadMemory

/-! ### Many loads -/

/-- What happens to a loader and its disk. -/
inductive LoadStep where
  | load (p : Path)
  /-- The disk becomes another one. -/
  | change (f : Disk → Disk)

namespace LoadStep

/-- The loads among steps, each with the disk on which it is made. -/
def loads (d : Disk) : List LoadStep → List (Disk × Path)
  | [] => []
  | .load p :: steps => (d, p) :: loads d steps
  | .change f :: steps => loads (f d) steps

/-- What a loader answers to the loads among steps. -/
def answers (root : Path) (d : Disk) (m : LoadMemory) : List LoadStep → List (Attempted SourceFile)
  | [] => []
  | .load p :: steps => (loadFile root d p m).1 :: answers root d (loadFile root d p m).2 steps
  | .change f :: steps => answers root (f d) m steps

/-- Each path is spelled in one way, and what stands at a path in two moments is the same if it bears the same time. -/
structure Telling (loads : List (Disk × Path)) : Prop where
  spelled : ∀ l ∈ loads, ∀ l' ∈ loads, (l.2 == l'.2) = true → l.2 = l'.2
  dated : ∀ l ∈ loads, ∀ l' ∈ loads, (l'.1.modified? l.2).isSome = true → l'.1.modified? l.2 = l.1.modified? l.2 →
    l'.1.stat l.2 = l.1.stat l.2

/-- A loader whose memory comes from some of all the loads answers like new ones to those that are left. -/
private theorem answers_eq_of_records {all : List (Disk × Path)} (telling : Telling all) (steps : List LoadStep)
    (among : ∀ l ∈ loads d steps, l ∈ all) (records : m.Records root (all.map (·.1)))
    (asked : ∀ l ∈ m, ∃ e, (e, l.path) ∈ all) :
    answers root d m steps = (loads d steps).map fun l => loadFresh root l.1 l.2 := by
  induction steps generalizing d m with
  | nil => rfl
  | cons step steps ih =>
    cases step with
    | change f => exact ih among records asked
    | load p =>
      rw [loads, List.forall_mem_cons] at among
      obtain ⟨here, later⟩ := among
      have dated : ∀ e ∈ all.map (·.1), (e.modified? p).isSome = true → e.modified? p = d.modified? p →
          e.stat p = d.stat p := by
        intro e he
        obtain ⟨l', hl', rfl⟩ := List.mem_map.1 he
        exact telling.dated (d, p) here l' hl'
      have spelled : ∀ l ∈ m, (l.path == p) = true → l.path = p := by
        intro l hl
        obtain ⟨e, he⟩ := asked l hl
        exact telling.spelled (e, l.path) he (d, p) here
      have asked' : ∀ l ∈ (loadFile root d p m).2, ∃ e, (e, l.path) ∈ all := by
        intro l hl
        rcases LoadMemory.path_eq_or_mem_of_mem_load hl with rfl | hl
        · exact ⟨d, here⟩
        · exact asked l hl
      rw [answers, loads, List.map_cons, records.loadFile_eq_of_dated dated spelled]
      exact congrArg _ (ih later (records.load (List.mem_map_of_mem here) p) asked')

/-- Whatever has been loaded before and has become of the disk since, a loader answers what a new one would answer. -/
theorem answers_eq_new (root : Path) (d : Disk) (steps : List LoadStep) (telling : Telling (loads d steps)) :
    answers root d [] steps = (loads d steps).map fun l => (loadFile root l.1 l.2 []).1 := by
  rw [answers_eq_of_records telling steps (fun _ h => h) (.empty root _) nofun]
  exact List.map_congr_left fun l _ => (LoadMemory.loadFile_new root l.1 l.2).symm

/-- The script of a project. -/
def restlessScript : Path := ⟨"/p/a.js"⟩

/-- The script is given a text and a time. -/
def rewritten (text : String) (time : Nat) : LoadStep :=
  .change fun d => (d.place restlessScript (.file text.toUTF8 time)).toOption.getD d

/-- The script changes, has a map that cannot be read, is as it was before that, is gone, has a directory in its place,
and is as it was in the beginning. -/
def restless : List LoadStep :=
  [rewritten "one" 1, .load restlessScript, rewritten "two" 2, .load restlessScript, .load restlessScript,
    rewritten "x\n//# sourceMappingURL=data:application/json;base64,@" 3, .load restlessScript,
    rewritten "two" 2, .load restlessScript, .change (·.remove restlessScript), .load restlessScript,
    .change fun d => (d.makeDirectory restlessScript).toOption.getD d, .load restlessScript,
    .change (·.remove restlessScript), rewritten "one" 1, .load restlessScript]

/-- The disk on which the project begins. -/
def bareProject : Disk where
  workingDirectory := []
  nodes := [(["p"], .directory 0)]
  clock := 9

private theorem telling_restless : Telling (loads bareProject restless) where
  spelled l hl l' hl' _ := by
    have text_eq : ∀ l ∈ loads bareProject restless, l.2.text = "/p/a.js" := by decide +kernel
    exact congrArg Path.mk ((text_eq l hl).trans (text_eq l' hl').symm)
  dated := by decide +kernel

/-- Each time the script is loaded as it is then. -/
theorem answers_eq_new_restless : Telling (loads bareProject restless) ∧
    answers ⟨"/p"⟩ bareProject [] restless =
      (loads bareProject restless).map (fun l => (loadFile ⟨"/p"⟩ l.1 l.2 []).1) ∧
    (answers ⟨"/p"⟩ bareProject [] restless).map (·.toOption.map (·.code)) =
      [some "one", some "two", some "two", none, some "two", none, none, some "one"] :=
  ⟨telling_restless, answers_eq_new ⟨"/p"⟩ bareProject restless telling_restless, by decide +kernel⟩

end LoadStep

end ScriptBundler
