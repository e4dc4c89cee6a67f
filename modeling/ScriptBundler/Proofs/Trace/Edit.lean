import ScriptBundler.Proofs.Disk.Edit
import ScriptBundler.Proofs.Trace.Again

/-!
# Traces after edits

An edit changes what files hold, but not which requests the scripts make, nor any manifest (`Disk.Edited`). No tracer
notices it: whatever it remembers, it traces as before and remembers the same in the end (`Edited.trace`).
-/

namespace ScriptBundler

open ImportTracer

variable {d d' d'' : Disk} {t : ImportTracer} {m : ImportMemory}

/-- The disk after edits of content only. -/
structure Disk.Edited (d d' : Disk) : Prop where
  laidOut : d.LaidOut d'
  requests : ∀ p : Path, p.isScript = true → loadsOf d' {} p = loadsOf d {} p
  manifest : ∀ p, manifest? d' p = manifest? d p

namespace Disk.Edited

theorem refl (d : Disk) : d.Edited d := ⟨.refl d, fun _ _ => rfl, fun _ => rfl⟩

theorem trans (h : d.Edited d') (k : d'.Edited d'') : d.Edited d'' :=
  ⟨h.laidOut.trans k.laidOut, fun p hp => (k.requests p hp).trans (h.requests p hp),
    fun p => (k.manifest p).trans (h.manifest p)⟩

/-- A file may get a text that makes the same requests and says the same as a manifest. -/
theorem put {place : Location} {old new : String} {time time' : Nat} (hne : place ≠ [])
    (there : d.node? place = some (.file old.toUTF8 time))
    (requests : ∀ dialect, Script.loads? dialect new = Script.loads? dialect old)
    (manifest : (Json.parse new).toOption = (Json.parse old).toOption) :
    d.Edited (d.put place (.file new.toUTF8 time')) := by
  have reads (p : Path) : d.readText p = .ok old ∧ (d.put place (.file new.toUTF8 time')).readText p = .ok new ∨
      (d.put place (.file new.toUTF8 time')).readText p = d.readText p := by
    rw [Disk.readText_put hne there]
    by_cases leads : d.locate p = .ok place
    · have holds : d.Holds p old := ⟨place, time, leads, there⟩
      exact .inl ⟨holds.readText, if_pos leads⟩
    · exact .inr (if_neg leads)
  refine ⟨.put hne there, fun p _ => ?_, fun p => ?_⟩
  · rw [loadsOf, loadsOf]
    rcases reads p with ⟨before, after⟩ | same
    · rw [before, after]
      show requestsOf p new = requestsOf p old
      rw [requestsOf, requestsOf, requests]
    · rw [same]
  · rw [manifest?, manifest?]
    rcases reads (p.join ⟨"package.json"⟩) with ⟨before, after⟩ | same
    · rw [before, after]
      exact manifest
    · rw [same]

private theorem find (h : d.Edited d') (r : Resolver) : r.find d' = r.find d := by
  have resolvePackage : resolvePackage d' = resolvePackage d := by
    funext p
    rw [ScriptBundler.resolvePackage, ScriptBundler.resolvePackage, h.laidOut.exists_eq, h.laidOut.resolveFile,
      h.manifest]
  funext script request
  rw [Resolver.find, Resolver.find, Resolver.findAlias, Resolver.findAlias, Resolver.findPackage, Resolver.findPackage,
    h.laidOut.resolveFile, resolvePackage]

private theorem importsFor (h : d.Edited d') {p : Path} (hp : p.isScript = true) : importsFor d' p = importsFor d p := by
  funext m
  cases remembered : m.requests? p with
  | some loads => rw [importsFor_of_remembered remembered, importsFor_of_remembered remembered]
  | none =>
    have anew (d : Disk) : loadsOf d m p = loadsOf d {} p := by
      rw [loadsOf, remembered]
      rfl
    rw [importsFor_of_forgotten remembered, importsFor_of_forgotten remembered, anew, anew, h.requests p hp]

private theorem resolve (h : d.Edited d') (t : ImportTracer) : t.resolve d' = t.resolve d := by
  funext p request m
  rw [ImportTracer.resolve, ImportTracer.resolve]
  unfold Resolver.resolve
  rw [h.find]

private theorem resolveAll (h : d.Edited d') (t : ImportTracer) (p : Path) (found : List Path)
    (loads : List Script.Load) : t.resolveAll d' p found loads = t.resolveAll d p found loads := by
  induction loads generalizing found with
  | nil => rfl
  | cons load loads ih =>
    rw [ImportTracer.resolveAll, ImportTracer.resolveAll, h.resolve]
    simp only [ih]

private theorem dependencies (h : d.Edited d') (t : ImportTracer) : t.dependencies d' = t.dependencies d := by
  funext p
  rw [ImportTracer.dependencies, ImportTracer.dependencies]
  split
  · rename_i hp
    rw [h.importsFor hp]
    simp only [h.resolveAll]
  · rfl

end Disk.Edited

namespace ImportTracer

/-- How a visit ends depends on the disk by what files ask for only. -/
private theorem Ends.on {ps : List Path} {w : Walk} {r : Attempted Walk × ImportMemory}
    (e : t.dependencies d' = t.dependencies d) (h : t.Ends d ps w m r) : t.Ends d' ps w m r := by
  have visits {ps : List Path} {w w' : Walk} {m m' : ImportMemory} (h : t.Visits d ps w m w' m') :
      t.Visits d' ps w m w' m' := by
    induction h with
    | none => exact .none
    | again seen _ ih => exact .again seen ih
    | listed unseen gives _ _ inner rest =>
      rw [← e] at gives
      exact .listed unseen gives inner rest
  obtain ⟨r, m'⟩ := r
  cases r with
  | ok w' => exact visits h
  | error f =>
    have fails : t.Fails d ps w m f m' := h
    show t.Fails d' ps w m f m'
    induction fails with
    | again seen _ ih => exact .again seen (ih ‹_›)
    | listed unseen gives inner _ ih =>
      rw [← e] at gives
      exact .listed unseen gives (visits inner) (ih ‹_›)
    | entered unseen gives _ ih =>
      rw [← e] at gives
      exact .entered unseen gives (ih ‹_›)
    | refused unseen refuses =>
      rw [← e] at refuses
      exact .refused unseen refuses

end ImportTracer

private theorem Disk.Edited.traceOne (h : d.Edited d') (t : ImportTracer) : t.traceOne d' = t.traceOne d := by
  funext p m
  obtain ⟨r, ends, traced⟩ := t.traceOne_ends d p m
  obtain ⟨r', ends', traced'⟩ := t.traceOne_ends d' p m
  rw [traced, traced', (ends.on (h.dependencies t)).unique ends']

theorem Disk.Edited.trace (h : d.Edited d') (t : ImportTracer) : t.trace d' = t.trace d := by
  funext ps
  rw [ImportTracer.trace, ImportTracer.trace, h.traceOne]

end ScriptBundler
