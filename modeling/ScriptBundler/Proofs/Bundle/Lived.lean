import ScriptBundler.Proofs.Bundle.Keeping
import ScriptBundler.Proofs.Bundle.Live
import ScriptBundler.Proofs.Load.Record
import ScriptBundler.Proofs.Trace.Edit

/-!
# Sessions on disks that are edited

A session lives on a disk whose files are edited now and then (`Lived`): they keep their requests, and get a time that
they never had. Its bundle is the one that would be made on the disk of today (`gives_of_edited`), the tracer remembers
what it has found on the first of the disks, and what is remembered of files was loaded from one of them
(`Lived.informed`).
-/

namespace ScriptBundler

open Workspace

variable {root : Path} {aliases : AliasTable} {patterns : List String} {options : Options} {d d' : Disk} {b : Bundle}
  {w : Workspace} {ds : List Disk} {s : Session Workspace}

/-! ### Bundles made on edited disks -/

/-- Paths that stand for themselves. -/
def Glob.Literal (d : Disk) (patterns : List String) : Prop :=
  ∀ p ∈ patterns, ¬ hasMagic p = true ∨ d.exists ⟨p⟩ = true

instance : Decidable (Glob.Literal d patterns) := inferInstanceAs (Decidable (∀ p ∈ patterns, _))

namespace Bundle

/-- A workspace in which nothing has been loaded, and the same one on another disk. -/
structure Moved (d d' : Disk) (w v : Workspace) : Prop where
  disk : w.disk = d
  loads : w.loads = []
  moved : v = { w with disk := d' }

private theorem trace_moved (edit : d.Edited d') (ps : List Path) :
    ((collaborators root aliases).trace ps).Paired (Moved d d') Eq Eq ((collaborators root aliases).trace ps) := by
  rintro w _ ⟨rfl, none, rfl⟩
  have same : ((collaborators root aliases).trace ps { w with disk := d' }) =
      (((collaborators root aliases).trace ps w).1, { ((collaborators root aliases).trace ps w).2 with disk := d' }) := by
    show onImports (fun d => (tracer root aliases).trace d ps) { w with disk := d' } = _
    unfold onImports
    dsimp only
    rw [edit.trace]
    rfl
  rw [same]
  exact ⟨Attempted.Alike.eq_iff.2 rfl, rfl, none, rfl⟩

/-- The partition is the same. -/
private theorem partition_moved (edit : d.Edited d') (entries : List Path) (option : CommonOption) :
    (Partition.of (collaborators root aliases).trace entries option).Paired (Moved d d') Eq Eq
      (Partition.of (collaborators root aliases).trace entries option) := by
  have added (found : PathSet) (p : Path) : Action.Paired (Moved d d') Eq Eq
      (return found.insertAll ((← (collaborators root aliases).trace [p]).map (·.path)))
      (return found.insertAll ((← (collaborators root aliases).trace [p]).map (·.path))) := by
    refine (trace_moved edit [p]).bind ?_
    rintro fs _ rfl
    exact .pure rfl
  refine (trace_moved edit entries).bind ?_
  rintro fs _ rfl
  refine (Action.Paired.foldlM added _ _).bind ?_
  rintro shared _ rfl
  exact .pure rfl

/-- On an edited disk the same bundle is made. -/
theorem gives_of_edited (edit : d.Edited d') (literal : Glob.Literal d patterns)
    (h : (Bundle.of (collaborators root aliases) patterns options).Gives { disk := d } b w) :
    w.disk = d ∧ w.loads = [] ∧
      (Bundle.of (collaborators root aliases) patterns options).Gives { disk := d' } b { w with disk := d' } := by
  have expanded : (expand (collaborators root aliases) patterns).Paired (Moved d d') Eq Eq
      (expand (collaborators root aliases) patterns) := by
    have literal' : Glob.Literal d' patterns := fun p hp => by
      rw [edit.laidOut.exists_eq]
      exact literal p hp
    refine Action.Paired.get.bind ?_
    rintro w _ ⟨rfl, none, rfl⟩
    have here : Glob.expand ((collaborators root aliases).disk w) patterns = _ := expand_literal literal
    have there : Glob.expand ((collaborators root aliases).disk { w with disk := d' }) patterns = _ :=
      expand_literal literal'
    rw [here, there]
    exact .pure rfl
  have made : (Bundle.of (collaborators root aliases) patterns options).Paired (Moved d d') Eq Eq
      (Bundle.of (collaborators root aliases) patterns options) := by
    refine expanded.bind ?_
    rintro files _ rfl
    refine (partition_moved edit files options.common).bind ?_
    rintro P _ rfl
    refine Action.Paired.get.bind ?_
    rintro w _ ⟨rfl, none, rfl⟩
    refine .pure ?_
    rw [isThere_eq, isThere_eq, edit.laidOut.exists_eq]
  obtain ⟨alike, disk, loads, moved⟩ := made { disk := d } { disk := d' } ⟨rfl, rfl, rfl⟩
  have h : Bundle.of (collaborators root aliases) patterns options { disk := d } = _ := h
  rw [h] at alike disk loads moved
  exact ⟨disk, loads, Prod.ext (Attempted.Alike.eq_iff.1 alike).symm moved⟩

end Bundle

/-! ### Sessions and edits -/

/-- The session was made from nothing, and since then requests have been answered and files edited. The disks that it
has seen are listed, the last one first. -/
inductive Lived (root : Path) (aliases : AliasTable) (patterns : List String) (options : Options) :
    List Disk → Session Workspace → Prop where
  | made {d : Disk} {b : Bundle} {w : Workspace} (literal : Glob.Literal d patterns)
      (h : (Bundle.of (collaborators root aliases) patterns options).Gives { disk := d } b w) :
      Lived root aliases patterns options [d] ⟨w, b⟩
  | asked {ds : List Disk} {s : Session Workspace} (h : Lived root aliases patterns options ds s)
      (r : Request Workspace) (asks : Session.Asks r) :
      Lived root aliases patterns options ds (s.step (collaborators root aliases) r).2
  | edited {ds : List Disk} {s : Session Workspace} (h : Lived root aliases patterns options ds s) (d' : Disk)
      (edit : s.world.disk.Edited d') (dated : ∀ d ∈ ds, d.Dated d') :
      Lived root aliases patterns options (d' :: ds) { s with world := { s.world with disk := d' } }

/-- A workspace on a disk that remembers files of that and other disks. -/
structure Workspace.Records (root : Path) (d : Disk) (ds : List Disk) (w : Workspace) : Prop where
  disk : w.disk = d
  loads : w.loads.Records root ds

theorem Workspace.load_apply (hw : w.disk = d) (p : Path) : (collaborators root aliases).load p w =
    (((loadFile root d p w.loads).1, { w with loads := (loadFile root d p w.loads).2 }) :
      Attempted SourceFile × Workspace) := by
  rw [← hw]
  rfl

theorem Workspace.Records.load (h : w.Records root d ds) (here : d ∈ ds) (p : Path) :
    Records root d ds { w with loads := (loadFile root d p w.loads).2 } := ⟨h.disk, h.loads.load here p⟩

/-- What the session knows of the disks it has seen. -/
structure Session.Informed (root : Path) (aliases : AliasTable) (patterns : List String) (options : Options)
    (ds : List Disk) (s : Session Workspace) : Prop where
  made : ∃ d ∈ ds, Glob.Literal d patterns ∧ ∃ w,
    (Bundle.of (collaborators root aliases) patterns options).Gives { disk := d } s.bundle w ∧
      s.world.imports = w.imports
  here : s.world.disk ∈ ds
  edited : ∀ d ∈ ds, d.Edited s.world.disk
  dated : ∀ d ∈ ds, d.Dated s.world.disk
  records : s.world.loads.Records root ds

namespace Session.Informed

theorem live (h : s.Informed root aliases patterns options ds) : s.bundle.Live root aliases s.world := by
  obtain ⟨d, -, -, w, made, imports⟩ := h.made
  obtain ⟨b₀, w₀, w₁, refreshed, within⟩ := Bundle.live_of made
  exact ⟨b₀, w₀, w₁, refreshed, by rwa [imports]⟩

theorem alike (h : s.Informed root aliases patterns options ds) :
    ∀ d ∈ ds, d.LaidOut s.world.disk ∧ d.Dated s.world.disk :=
  fun d hd => ⟨(h.edited d hd).laidOut, h.dated d hd⟩

private theorem asked (h : s.Informed root aliases patterns options ds) (r : Request Workspace) (asks : Asks r) :
    (s.step (collaborators root aliases) r).2.Informed root aliases patterns options ds := by
  -- requests change nothing but what has been loaded, and the log
  have keeping : (collaborators root aliases).Keeping s.bundle fun w =>
      w.imports = s.world.imports ∧ w.Records root s.world.disk ds := by
    refine ⟨fun p hp w hw => ?_, fun p w hw => ?_, fun e w hw => ⟨hw.1, hw.2.disk, hw.2.loads⟩, fun callback w hw => hw⟩
    · obtain ⟨fs, recalls⟩ := h.live.recalls hp
      have traced : (collaborators root aliases).trace [p] w = _ := recalls w (by rw [hw.1]; exact .refl _)
      rw [traced]
      exact hw
    · rw [load_apply hw.2.disk]
      exact ⟨hw.1, hw.2.load h.here p⟩
  obtain ⟨imports, disk, records⟩ := answer_keeps keeping r asks s.world ⟨rfl, rfl, h.records⟩
  have step_eq : (s.step (collaborators root aliases) r).2 =
      { s with world := (answer (collaborators root aliases) s.bundle r s.world).2 } := by
    cases r with
    | refresh => cases asks
    | _ => rfl
  rw [step_eq]
  exact ⟨by rw [imports]; exact h.made, by rw [disk]; exact h.here, by rw [disk]; exact h.edited,
    by rw [disk]; exact h.dated, records⟩

end Session.Informed

theorem Lived.informed (h : Lived root aliases patterns options ds s) :
    s.Informed root aliases patterns options ds := by
  induction h with
  | made literal made =>
    obtain ⟨rfl, none, -⟩ := Bundle.gives_of_edited (.refl _) literal made
    refine ⟨⟨_, List.mem_singleton_self _, literal, _, made, rfl⟩, List.mem_singleton_self _, ?_, ?_, ?_⟩
    · rw [List.forall_mem_singleton]
      exact .refl _
    · rw [List.forall_mem_singleton]
      exact .refl _
    · rw [none]
      exact .empty root _
  | asked _ r asks ih => exact ih.asked r asks
  | edited _ d' edit dated ih =>
    obtain ⟨d, hd, literal, w, made, imports⟩ := ih.made
    refine ⟨⟨d, List.mem_cons_of_mem _ hd, literal, w, made, imports⟩, List.mem_cons_self, ?_, ?_,
      ih.records.mono fun d hd => List.mem_cons_of_mem _ hd⟩
    · rw [List.forall_mem_cons]
      exact ⟨.refl d', fun d hd => (ih.edited d hd).trans edit⟩
    · rw [List.forall_mem_cons]
      exact ⟨.refl d', dated⟩

/-- A file is given a text at a time. -/
def Session.edit (s : Session Workspace) (place : Location) (text : String) (time : Nat) : Session Workspace :=
  { s with world := { s.world with disk := s.world.disk.put place (.file text.toUTF8 time) } }

theorem Session.edit_bundle (s : Session Workspace) (place : Location) (text : String) (time : Nat) :
    (s.edit place text time).bundle = s.bundle := rfl

/-- A file may be given a text with the same requests, at a time that it never had. -/
theorem Lived.edit (h : Lived root aliases patterns options ds s) {place : Location} (hne : place ≠ []) {old : String}
    {time : Nat} (there : s.world.disk.node? place = some (.file old.toUTF8 time)) (new : String)
    (requests : ∀ dialect, Script.loads? dialect new = Script.loads? dialect old)
    (manifest : (Json.parse new).toOption = (Json.parse old).toOption) (later : Nat)
    (fresh : ∀ d ∈ ds, ∀ content, d.node? place ≠ some (.file content later)) :
    Lived root aliases patterns options ((s.edit place new later).world.disk :: ds) (s.edit place new later) :=
  h.edited _ (.put hne there requests manifest) fun d hd => (h.informed.dated d hd).put hne (fresh d hd)

end ScriptBundler
