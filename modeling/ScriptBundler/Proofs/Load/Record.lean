import ScriptBundler.Proofs.Disk.Edit
import ScriptBundler.Proofs.Disk.Spelling
import ScriptBundler.Proofs.Load
import ScriptBundler.Proofs.Pairs

/-!
# What is remembered of files

A file is loaded again when it has been changed since. If it gets a new time with each change (`Disk.Dated`), what is
remembered with the time of today was made of the text of today (`Records.current`), be the disk of today as many edits
away from that of then as it may. But it may have been made for another spelling of the path, and bear the name of that.

So loads from memory succeed and fail like loads from the disk (`Records.alike`), and have the same result for a path
that is not remembered in another spelling (`Records.loadFile_eq`).
-/

namespace ScriptBundler

variable {root p q : Path} {d d' : Disk} {ds : List Disk} {m m' : LoadMemory} {f g : SourceFile} {text : String}

/-- Files that were changed at the same time hold the same. -/
def Disk.Dated (d d' : Disk) : Prop := ∀ k content content' time, d.node? k = some (.file content time) →
  d'.node? k = some (.file content' time) → content' = content

theorem Disk.Dated.refl (d : Disk) : d.Dated d := by
  intro k content content' time e e'
  rw [e] at e'
  cases e'
  rfl

/-- An edit is dated with a time that the file never had. -/
theorem Disk.Dated.put {place : Location} {content : ByteArray} {time : Nat} (hne : place ≠ []) (h : d.Dated d')
    (fresh : ∀ content, d.node? place ≠ some (.file content time)) : d.Dated (d'.put place (.file content time)) := by
  intro k before after time' e e'
  rw [node?_put hne] at e'
  by_cases same : k = place
  · rw [if_pos same] at e'
    cases e'
    rw [same] at e
    exact absurd e (fresh before)
  · rw [if_neg same] at e'
    exact h k before after time' e e'

/-! ### Loads from the disk -/

theorem loadFresh_of_readText (read : d.readText p = .ok text) (made : SourceFile.ofText? root p text = some f) :
    loadFresh root d p = .ok f := by
  unfold SourceFile.ofText? at made
  unfold loadFresh
  rw [read]
  show ((loadFresh.extracted text).during _ >>= _) = _
  split at made
  · rename_i extracted
    cases made
    rw [extracted]
    rfl
  · rename_i extracted
    cases made
    rw [extracted]
    rfl
  · cases made

/-- Whether a text makes a file, and with which code, does not depend on the path at which it is found. -/
private theorem SourceFile.exists_ofText? (made : ofText? root p text = some f) (q : Path) :
    ∃ g, ofText? root q text = some g ∧ g.code = f.code := by
  unfold ofText? at made ⊢
  split at made
  · cases made
    exact ⟨_, rfl, rfl⟩
  · cases made
    exact ⟨_, rfl, rfl⟩
  · cases made

/-- Two files were made of one text, for two spellings of its path. -/
def SourceFile.Respelled (root : Path) (f g : SourceFile) : Prop := ∃ p q text, (p == q) = true ∧
  ofText? root p text = some f ∧ ofText? root q text = some g

theorem SourceFile.Respelled.code (h : f.Respelled root g) : f.code = g.code := by
  obtain ⟨p, q, text, -, made, made'⟩ := h
  obtain ⟨g', again, code⟩ := exists_ofText? made q
  cases made'.symm.trans again
  exact code.symm

/-! ### Loads from memory -/

namespace LoadMemory

theorem loadFile_fst (m : LoadMemory) :
    (loadFile root d p m).1 = (m.current? d p).elim (loadFresh root d p) .ok := by
  rcases known : m.current? d p with _ | f
  · rw [loadFile_of_stale known]
    cases loadFresh root d p <;> rfl
  · rw [loadFile_of_current known]
    rfl

/-- What is remembered of each file was loaded from one of the disks, and is dated as the file was there. -/
def Records (root : Path) (ds : List Disk) (m : LoadMemory) : Prop :=
  ∀ l ∈ m, ∃ d ∈ ds, l.modified = d.modified? l.path ∧ loadFresh root d l.path = .ok l.file

namespace Records

theorem empty (root : Path) (ds : List Disk) : Records root ds [] := nofun

theorem mono {ds' : List Disk} (h : m.Records root ds) (more : ∀ d ∈ ds, d ∈ ds') : m.Records root ds' := by
  intro l hl
  obtain ⟨d, hd, loaded⟩ := h l hl
  exact ⟨d, more d hd, loaded⟩

theorem load (h : m.Records root ds) (hd : d ∈ ds) (p : Path) : (loadFile root d p m).2.Records root ds := by
  rcases known : m.current? d p with _ | f
  · rw [loadFile_of_stale known]
    rcases loaded : loadFresh root d p with e | f
    · exact h
    · intro l hl
      rcases List.mem_cons.1 hl with rfl | hl
      · exact ⟨d, hd, rfl, loaded⟩
      · exact h l (List.mem_filter.1 hl).1
  · rw [loadFile_of_current known]
    exact h

/-- What is remembered as current was made of the text of today, for some spelling of the path. -/
theorem current (h : m.Records root ds) (alike : ∀ e ∈ ds, e.LaidOut d ∧ e.Dated d) (known : m.current? d p = some f) :
    ∃ l ∈ m, (l.path == p) = true ∧ ∃ text, d.readText p = .ok text ∧ SourceFile.ofText? root l.path text = some f := by
  obtain ⟨l, time, found, dated, now, rfl⟩ := current?_eq_some.1 known
  have same := List.find?_some found
  have hl : l ∈ m := List.mem_of_find?_eq_some found
  obtain ⟨e, he, modified, loaded⟩ := h l hl
  obtain ⟨laidOut, keeps⟩ := alike e he
  obtain ⟨text, read, made⟩ := exists_of_loadFresh loaded
  obtain ⟨k, content, time', located, there, decoded⟩ := Disk.exists_of_readText read
  obtain ⟨k', located', there'⟩ := Disk.exists_of_modified? now
  -- both spellings lead to something, so they lead to the same file
  obtain rfl : k = k' := by
    rw [← laidOut.locate] at located
    exact Disk.locate_congr same located located'
  have then_eq : time' = time := by
    rw [modified?_of_file located there, dated] at modified
    exact (Option.some.inj modified).symm
  obtain ⟨content', file⟩ : ∃ content', d.node? k = some (.file content' time) := by
    rcases there' with directory | file
    · rcases laidOut.node k with e | ⟨_, _, _, _, -, e⟩
      · rw [there, directory] at e
        cases e
      · rw [directory] at e
        cases e
    · exact file
  rw [then_eq] at there
  rw [keeps k content content' time there file] at file
  exact ⟨l, hl, same, text, Disk.readText_of_file located' file decoded, made⟩

/-- Loads from memory and from the disk both fail, or what is loaded was made of the text of today. -/
theorem alike (h : m.Records root ds) (alike : ∀ e ∈ ds, e.LaidOut d ∧ e.Dated d) (p : Path) :
    Attempted.Alike Eq (fun f _ => ∃ q, (q == p) = true ∧ ∃ text, d.readText p = .ok text ∧
      SourceFile.ofText? root q text = some f) (loadFile root d p m).1 (loadFresh root d p) := by
  rw [loadFile_fst]
  rcases known : m.current? d p with _ | f
  · rcases loaded : loadFresh root d p with e | f
    · exact .error rfl
    · exact .ok ⟨p, BEq.rfl, exists_of_loadFresh loaded⟩
  · obtain ⟨l, -, same, text, read, made⟩ := h.current alike known
    obtain ⟨g, made', -⟩ := SourceFile.exists_ofText? made p
    rw [loadFresh_of_readText read made']
    exact .ok ⟨l.path, same, text, read, made⟩

/-- Loads from two memories both fail, or make files of one text. -/
theorem respelled (h : m.Records root ds) (h' : m'.Records root ds) (alike : ∀ e ∈ ds, e.LaidOut d ∧ e.Dated d)
    (p : Path) : Attempted.Alike Eq (SourceFile.Respelled root) (loadFile root d p m).1 (loadFile root d p m').1 := by
  refine ((h.alike alike p).join (h'.alike alike p)).mono ?_
  rintro f g ⟨-, ⟨q, same, text, read, made⟩, q', same', text', read', made'⟩
  cases read.symm.trans read'
  exact ⟨q, q', text, BEq.trans same (BEq.symm same'), made, made'⟩

/-- A path that is not remembered in another spelling is loaded as from the disk. -/
theorem loadFile_eq (h : m.Records root ds) (alike : ∀ e ∈ ds, e.LaidOut d ∧ e.Dated d)
    (spelled : ∀ l ∈ m, (l.path == p) = true → l.path = p) : (loadFile root d p m).1 = loadFresh root d p := by
  rw [loadFile_fst]
  rcases known : m.current? d p with _ | f
  · rfl
  · obtain ⟨l, hl, same, text, read, made⟩ := h.current alike known
    rw [spelled l hl same] at made
    exact (loadFresh_of_readText read made).symm

end Records

/-! ### Memories that agree -/

/-- The paths are loaded alike from both memories. -/
def Agree (root : Path) (d : Disk) (ps : List Path) (m m' : LoadMemory) : Prop :=
  ∀ p ∈ ps, (loadFile root d p m).1 = (loadFile root d p m').1

/-- What is current when a file has been loaded. -/
private theorem current?_load (loaded : (loadFile root d p m).1 = .ok f) : (loadFile root d p m).2.current? d q =
    if (p == q) = true then (if (d.modified? p).isSome ∧ d.modified? p = d.modified? q then some f else none)
    else m.current? d q := by
  rcases known : m.current? d p with _ | g
  · -- it is remembered now
    rw [loadFile_of_stale known] at loaded ⊢
    rcases fresh : loadFresh root d p with e | g
    · rw [fresh] at loaded
      cases loaded
    · rw [fresh] at loaded
      cases loaded
      unfold current?
      rw [find?_remember]
      by_cases same : (p == q) = true
      · simp [same, Option.filter]
      · rw [if_neg same, if_neg same]
  · -- it was remembered already
    rw [loadFile_of_current known] at loaded ⊢
    cases loaded
    by_cases same : (p == q) = true
    · obtain ⟨l, time, found, dated, now, rfl⟩ := current?_eq_some.1 known
      have found' : m.find? (·.path == q) = some l := by
        rw [← found]
        congr 1
        funext l
        exact (BEq.congr_right same).symm
      simp [current?, same, found', dated, now, Option.filter]
    · rw [if_neg same]

private theorem loadFile_of_error {e : Failure} (failed : (loadFile root d p m).1 = .error e) :
    (loadFile root d p m).2 = m := by
  rcases known : m.current? d p with _ | g
  · rw [loadFile_of_stale known] at failed ⊢
    rcases fresh : loadFresh root d p with e' | f
    · rfl
    · rw [fresh] at failed
      cases failed
  · rw [loadFile_of_current known]

/-- Memories that agree on paths still do when one of the paths has been loaded. -/
theorem Agree.load {ps : List Path} (h : Agree root d ps m m') (hp : p ∈ ps) :
    Agree root d ps (loadFile root d p m).2 (loadFile root d p m').2 := by
  rcases loaded : (loadFile root d p m).1 with e | f
  · rw [loadFile_of_error loaded, loadFile_of_error ((h p hp).symm.trans loaded)]
    exact h
  · have loaded' := (h p hp).symm.trans loaded
    intro q hq
    have before := h q hq
    rw [loadFile_fst, loadFile_fst] at before ⊢
    rw [current?_load loaded, current?_load loaded']
    by_cases same : (p == q) = true
    · rw [if_pos same, if_pos same]
    · rw [if_neg same, if_neg same]
      exact before

end LoadMemory

end ScriptBundler
