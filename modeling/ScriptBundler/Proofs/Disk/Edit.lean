import ScriptBundler.Proofs.Disk.Change
import ScriptBundler.Proofs.Disk.Grow
import ScriptBundler.Trace.Resolve

/-!
# Disks that are laid out alike

A disk is laid out like another one if all that differs is what files hold and when they were changed. Paths lead to the
same places there (`LaidOut.locate`), and the same files are found for a path without an extension
(`LaidOut.resolveFile`).
-/

namespace ScriptBundler.Disk

variable {d d' d'' : Disk} {p : Path} {arrival : Arrival}

/-- The disks have the same files, directories and links, but files may hold something else. -/
structure LaidOut (d d' : Disk) : Prop where
  workingDirectory : d'.workingDirectory = d.workingDirectory
  node : ∀ k, d'.node? k = d.node? k ∨ ∃ content time content' time',
    d.node? k = some (.file content time) ∧ d'.node? k = some (.file content' time')

namespace LaidOut

theorem refl (d : Disk) : d.LaidOut d := ⟨rfl, fun _ => .inl rfl⟩

theorem trans (h : d.LaidOut d') (k : d'.LaidOut d'') : d.LaidOut d'' where
  workingDirectory := k.workingDirectory.trans h.workingDirectory
  node l := by
    rcases k.node l with e' | ⟨c', t', c'', t'', e', e''⟩
    · rw [e']
      exact h.node l
    · rcases h.node l with e | ⟨c, t, -, -, e, -⟩
      · exact .inr ⟨c', t', c'', t'', e.symm.trans e', e''⟩
      · exact .inr ⟨c, t, c'', t'', e, e''⟩

private theorem descend (h : d.LaidOut d') (again : Location → List String → Except DiskError Location)
    (start : Location)
    (names : List String) : d'.descend arrival again start names = d.descend arrival again start names := by
  induction names generalizing start with
  | nil => rfl
  | cons name rest ih =>
    rw [Disk.descend, Disk.descend]
    simp only [ih]
    rcases h.node (start ++ [name]) with e | ⟨c, t, c', t', e, e'⟩
    · rw [e]
    · rw [e, e']

private theorem walk (h : d.LaidOut d') (n : Nat) : d'.walk arrival n = d.walk arrival n := by
  induction n with
  | zero =>
    funext start names
    exact h.descend _ start names
  | succ n ih =>
    funext start names
    rw [Disk.walk, Disk.walk, ih]
    exact h.descend _ start names

theorem locate (h : d.LaidOut d') (p : Path) : d'.locate p arrival = d.locate p arrival := by
  rw [Disk.locate, Disk.locate, h.walk, h.workingDirectory]

/-- A path leads to nothing on both disks, to the same node, or to a file on each. -/
private theorem stat (h : d.LaidOut d') (p : Path) (arrival : Arrival) :
    d'.stat p arrival = d.stat p arrival ∨ ∃ content time content' time',
    d.stat p arrival = .ok (.file content time) ∧ d'.stat p arrival = .ok (.file content' time') := by
  unfold Disk.stat
  rw [h.locate]
  rcases d.locate p arrival with e | location
  · exact .inl rfl
  · rcases h.node location with e | ⟨c, t, c', t', e, e'⟩
    · refine .inl ?_
      simp only [bind, Except.bind, e]
    · refine .inr ⟨c, t, c', t', ?_, ?_⟩
      · simp only [bind, Except.bind, e]
      · simp only [bind, Except.bind, e']

theorem exists_eq (h : d.LaidOut d') : d'.exists = d.exists := by
  funext p
  rw [Disk.exists, Disk.exists]
  rcases h.stat p {} with e | ⟨c, t, c', t', e, e'⟩
  · rw [e]
  · rw [e, e']
    rfl

private theorem isFile (h : d.LaidOut d') : d'.isFile = d.isFile := by
  funext p
  rw [Disk.isFile, Disk.isFile]
  rcases h.stat p {} with e | ⟨c, t, c', t', e, e'⟩
  · rw [e]
  · rw [e, e']

private theorem canonical (h : d.LaidOut d') : ScriptBundler.canonical d' = ScriptBundler.canonical d := by
  funext p
  rw [ScriptBundler.canonical, ScriptBundler.canonical, canonical?, canonical?, h.locate]

theorem resolveFile (h : d.LaidOut d') : ScriptBundler.resolveFile d' = ScriptBundler.resolveFile d := by
  funext p
  rw [ScriptBundler.resolveFile, ScriptBundler.resolveFile, h.isFile, h.canonical]

/-- A file may get another content. -/
theorem put {place : Location} {content content' : ByteArray} {time time' : Nat} (hne : place ≠ [])
    (there : d.node? place = some (.file content time)) : d.LaidOut (d.put place (.file content' time')) where
  workingDirectory := by
    unfold Disk.put
    split <;> rfl
  node k := by
    rw [node?_put hne]
    by_cases same : k = place
    · rw [same, if_pos rfl]
      exact .inr ⟨content, time, content', time', there, rfl⟩
    · rw [if_neg same]
      exact .inl rfl

end LaidOut

/-- The text at a path is the new one if the path leads to the file that was edited, and is as before otherwise. -/
theorem readText_put {place : Location} {content : ByteArray} {time time' : Nat} {text : String} (hne : place ≠ [])
    (there : d.node? place = some (.file content time)) (p : Path) :
    (d.put place (.file text.toUTF8 time')).readText p =
      if d.locate p = .ok place then .ok text else d.readText p := by
  have laidOut : d.LaidOut (d.put place (.file text.toUTF8 time')) := .put hne there
  unfold readText readBytes stat
  rw [laidOut.locate]
  rcases d.locate p with e | k
  · rw [if_neg (by simp)]
    rfl
  · by_cases same : k = place
    · rw [if_pos (by rw [same])]
      simp only [bind, Except.bind, node?_put hne, if_pos same, fromUTF8?_toUTF8]
    · rw [if_neg (by simpa using same)]
      simp only [bind, Except.bind, node?_put hne, if_neg same]

end ScriptBundler.Disk
