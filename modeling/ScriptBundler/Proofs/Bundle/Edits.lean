import ScriptBundler.Proofs.Bundle.Lived
import ScriptBundler.Proofs.Bundle.Order
import ScriptBundler.Proofs.Bundle.Pairs
import ScriptBundler.Proofs.Bundle.Session

/-!
# Outputs after edits

A session on a disk that is edited now and then traces from memory (`Live.recalls`), and loads files anew if they have
been edited since. So its outputs have the code that those of a new session have, on the same lines, of the same files
(`compileOutput_after_edits`).

Their maps may differ, but only in the names of files: a file is remembered for all spellings of its path with a map that
names the first one. In `compileOutput_remembers_name` an output has a name in its map that it would not have if a
request before had not been made.
-/

namespace ScriptBundler

open Workspace

variable {root : Path} {aliases : AliasTable} {patterns : List String} {options : Options} {d : Disk} {b : Bundle}
  {w v : Workspace} {ds : List Disk} {s : Session Workspace}

namespace Bundle

variable {traced bundled : List Path}

/-- What is asked for depends on the disk only. -/
private theorem exists_asked {σ : Type} (c : Collaborators σ) (b : Bundle) (paths : Option (List Path)) (d : Disk) :
    ∃ r, ∀ w, c.disk w = d → b.asked c paths w = ((r, w) : Attempted (List Path) × σ) := by
  cases paths with
  | none => exact ⟨.ok b.files, fun _ _ => rfl⟩
  | some ps =>
    refine ⟨(ps.mapM (b.meaning d)).map List.flatten, fun w hw => ?_⟩
    rw [asked, requested_apply, hw]

/-- Entries that are remembered have the same files in workspaces with the same memory. -/
private theorem workingList_recalls (hw : b.Live root aliases w) (imports : v.imports = w.imports) (ps : List Path) :
    ∃ r, b.workingList (collaborators root aliases) ps w = ((r, w) : Attempted (List Path × List Path) × Workspace) ∧
      b.workingList (collaborators root aliases) ps v = ((r, v) : Attempted (List Path × List Path) × Workspace) := by
  have traces (p : Path) (hp : b.isEntry p = true) : ((collaborators root aliases).trace [p]).Paired
      (fun w' v' => w' = w ∧ v' = v) Eq (List.Forall₂ fun f g => f.path = g.path)
      ((collaborators root aliases).trace [p]) := by
    obtain ⟨fs, recalls⟩ := hw.recalls hp
    have first : (collaborators root aliases).trace [p] w = _ := recalls w (.refl _)
    have second : (collaborators root aliases).trace [p] v = _ := recalls v (by rw [imports]; exact .refl _)
    rintro _ _ ⟨rfl, rfl⟩
    rw [first, second]
    exact ⟨.ok (List.forall₂_same.2 fun _ _ => rfl), rfl, rfl⟩
  have paired := workingList_paired (b := b) (Q := Eq) (by rintro p _ rfl; exact BEq.rfl)
    (List.forall₂_same.2 fun p (hp : p ∈ ps.filter b.isEntry) =>
      ⟨rfl, List.forall₂_same.2 fun _ _ => rfl, traces p (List.mem_filter.1 hp).2⟩)
  obtain ⟨alike, here, there⟩ := paired w v ⟨rfl, rfl⟩
  rw [workingList_filter] at alike here there
  refine ⟨_, Prod.ext rfl here, Prod.ext (Attempted.Alike.eq_iff.1 (alike.mono ?_)).symm there⟩
  rintro ⟨files, entries⟩ ⟨files', entries'⟩ ⟨h, h'⟩
  rw [List.forall₂_eq_eq_eq] at h h'
  exact Prod.ext h h'

private theorem load_during_apply (hw : w.disk = d) (p : Path) :
    ((collaborators root aliases).load p).during (.loadFile p) w = ((Attempted.during (.loadFile p)
      (loadFile root d p w.loads).1, { w with loads := (loadFile root d p w.loads).2 }) :
        Attempted SourceFile × Workspace) := by
  rw [Action.during, load_apply hw]

/-- Files that are loaded from two memories of the same disks make outputs alike. -/
private theorem assemble_respelled (alike : ∀ e ∈ ds, e.LaidOut d ∧ e.Dated d) (here : d ∈ ds) (hw : w.Records root d ds)
    (hv : v.Records root d ds) : Attempted.Alike Eq (Compiled.MadeAlike Eq (SourceFile.Respelled root))
      (b.assemble (collaborators root aliases) traced bundled w).1
      (b.assemble (collaborators root aliases) traced bundled v).1 := by
  have load (p : Path) : (((collaborators root aliases).load p).during (.loadFile p)).Paired
      (fun w v => w.Records root d ds ∧ v.Records root d ds) Eq (SourceFile.Respelled root)
      (((collaborators root aliases).load p).during (.loadFile p)) := by
    rintro w v ⟨hw, hv⟩
    rw [load_during_apply hw.disk, load_during_apply hv.disk]
    exact ⟨(hw.loads.respelled hv.loads alike p).during_eq, hw.load here p, hv.load here p⟩
  have assembled : (b.assemble (collaborators root aliases) traced bundled).Paired
      (fun w v => w.Records root d ds ∧ v.Records root d ds) Eq (Compiled.MadeAlike Eq (SourceFile.Respelled root))
      (b.assemble (collaborators root aliases) traced bundled) :=
    assemble_paired (by rintro p _ rfl; exact load p)
      (fun e e' w v h => ⟨⟨h.1.disk, h.1.loads⟩, h.2.disk, h.2.loads⟩) (List.forall₂_same.2 fun _ _ => rfl)
      (List.forall₂_same.2 fun _ _ => rfl)
  exact (assembled w v ⟨hw, hv⟩).1

/-- Two workspaces on a disk that load some files alike. -/
structure LoadAlike (root : Path) (d : Disk) (ps : List Path) (w v : Workspace) : Prop where
  left : w.disk = d
  right : v.disk = d
  loads : LoadMemory.Agree root d ps w.loads v.loads

/-- From memories that agree on them, the files make the same output. -/
private theorem assemble_agree (h : LoadAlike root d traced w v) :
    (b.assemble (collaborators root aliases) traced bundled w).1 =
    (b.assemble (collaborators root aliases) traced bundled v).1 := by
  have load (p : Path) (hp : p ∈ traced) : (((collaborators root aliases).load p).during (.loadFile p)).Paired
      (LoadAlike root d traced) Eq Eq (((collaborators root aliases).load p).during (.loadFile p)) := by
    intro w v h
    rw [load_during_apply h.left, load_during_apply h.right]
    exact ⟨Attempted.Alike.eq_iff.2 (by rw [h.loads p hp]), h.left, h.right, h.loads.load hp⟩
  have assembled : (b.assemble (collaborators root aliases) traced bundled).Paired (LoadAlike root d traced) Eq Eq
      (b.assemble (collaborators root aliases) traced bundled) := by
    have same : List.Forall₂ (fun p q => p = q ∧ p ∈ traced) traced traced := List.forall₂_same.2 fun p hp => ⟨rfl, hp⟩
    refine (assembleFrom_paired (by rintro p _ ⟨rfl, hp⟩; exact load p hp)
      (fun e e' w v h => ⟨h.left, h.right, h.loads⟩) same 0 {} {}).bind ?_
    rintro _ _ ⟨files, files', same, rfl, rfl⟩
    rw [List.forall₂_eq_eq_eq] at same
    rw [same]
    exact .pure rfl
  exact Attempted.Alike.eq_iff.1 (assembled w v h).1

/-- Whatever edits and requests there have been, the bundle would be made again on the disk of today, and a request to it
fails exactly as it would fail then, or gives the same code on the same lines, of the same files and entries. These were
made of the same texts, and the outputs are the same if no file is remembered in another spelling. -/
theorem compileOutput_after_edits (h : Lived root aliases patterns options ds s) (paths : Option (List Path)) :
    ∃ v, (Bundle.of (collaborators root aliases) patterns options).Gives { disk := s.world.disk } s.bundle v ∧
      Attempted.Alike Eq (fun out out' => out.code = out'.code ∧ out.offsets = out'.offsets ∧ out.traced = out'.traced ∧
          out.bundled = out'.bundled ∧ out.MadeAlike Eq (SourceFile.Respelled root) out' ∧
          ((∀ p ∈ out.traced, ∀ l ∈ s.world.loads, (l.path == p) = true → l.path = p) → out = out'))
        (s.bundle.compileOutput (collaborators root aliases) paths s.world).1
        (s.bundle.compileOutput (collaborators root aliases) paths v).1 := by
  have informed := h.informed
  obtain ⟨d, hd, literal, w, made, imports⟩ := informed.made
  obtain ⟨-, none, anew⟩ := gives_of_edited (informed.edited d hd) literal made
  refine ⟨{ w with disk := s.world.disk }, anew, ?_⟩
  generalize hv : { w with disk := s.world.disk } = v
  have disk : v.disk = s.world.disk := by rw [← hv]
  have imports : v.imports = s.world.imports := by rw [← hv, imports]
  have none : v.loads = [] := by rw [← hv, ← none]
  obtain ⟨r, asked⟩ := exists_asked (collaborators root aliases) s.bundle paths s.world.disk
  rw [compileOutput_eq, Action.bind_apply, Action.bind_apply, asked s.world rfl, asked v disk]
  rcases r with f | ps
  · exact .error rfl
  obtain ⟨lists, listed, listed'⟩ := workingList_recalls informed.live imports ps
  dsimp only
  rw [Action.bind_apply, Action.bind_apply, listed, listed']
  rcases lists with f | ⟨traced, bundled⟩
  · exact .error rfl
  have records : v.loads.Records root ds := by
    rw [none]
    exact .empty root ds
  refine (assemble_respelled informed.alike informed.here ⟨rfl, informed.records⟩ ⟨disk, records⟩).mono_of_ok ?_
  intro out out' compiled compiled' made
  obtain ⟨code, offsets⟩ := made.code_offsets fun _ _ same => same.code
  have traced_eq := made.traced
  have bundled_eq := made.bundled
  rw [List.forall₂_eq_eq_eq] at traced_eq bundled_eq
  refine ⟨code, offsets, traced_eq, bundled_eq, made, fun spelled => ?_⟩
  obtain ⟨files, -, rfl⟩ := gives_assemble (Prod.ext compiled rfl)
  have agree : LoadMemory.Agree root s.world.disk traced s.world.loads v.loads := by
    intro p hp
    rw [informed.records.loadFile_eq informed.alike (spelled p hp), records.loadFile_eq informed.alike]
    rw [none]
    exact nofun
  exact Except.ok.inj (compiled.symm.trans ((assemble_agree ⟨rfl, disk, agree⟩).trans compiled'))

/-! ### Two scripts that are rewritten -/

namespace Chained

/-- The session of two scripts, of which one asks for the other. -/
def session : Session Workspace := ⟨found, bundle⟩

private theorem lived : Lived ⟨"/"⟩ [] [first.text, second.text] {} [project.disk] session :=
  .made (by decide +kernel) made

/-- The session after a request for one of the scripts. -/
def asked (p : Path) : Session Workspace := (session.step atRoot (.compileOutput (some [p]))).2

private theorem lived_asked (p : Path) : Lived ⟨"/"⟩ [] [first.text, second.text] {} [project.disk] (asked p) :=
  lived.asked _ trivial

/-- A text that asks for the first script and does more. -/
def longer : String := "import './a.js'; B"

/-- The new texts ask for what the old ones ask for. -/
private theorem loads_same (dialect : Script.Dialect) :
    Script.loads? dialect longer = Script.loads? dialect "import './a.js';" ∧
      Script.loads? dialect "B" = Script.loads? dialect "A" := by
  obtain ⟨types, markup⟩ := dialect
  cases types
  all_goals
    cases markup
    all_goals decide +kernel

/-- None of the texts is a manifest. -/
private theorem no_manifest {text : String} (h : text ∈ [longer, "import './a.js';", "B", "A"]) :
    (Json.parse text).toOption = none := by
  have refused : ∀ text ∈ [longer, "import './a.js';", "B", "A"], (Json.parse text).toOption.isNone = true := by
    decide +kernel
  exact Option.isNone_iff_eq_none.1 (refused text h)

/-- The second script is rewritten when a path has been asked for. -/
def once (p : Path) : Session Workspace := (asked p).edit ["src", "b.js"] longer 1

private theorem bundle_once (p : Path) : (once p).bundle = bundle := by
  have kept : (session.step atRoot (.compileOutput (some [p]))).2.bundle = session.bundle :=
    Session.step_bundle (by simp [Session.finds])
  rw [once, Session.edit_bundle, asked, kept, session]

private theorem lived_once (p : Path) :
    Lived ⟨"/"⟩ [] [first.text, second.text] {} [(once p).world.disk, project.disk] (once p) := by
  have here : (asked p).world.disk = project.disk := List.mem_singleton.1 (lived_asked p).informed.here
  have there : project.disk.node? ["src", "b.js"] = some (.file "import './a.js';".toUTF8 0) := by decide +kernel
  refine (lived_asked p).edit (by decide) (by rw [here, there]) longer (fun dialect => (loads_same dialect).1) ?_ 1 ?_
  · rw [no_manifest (by simp), no_manifest (by simp)]
  · rw [List.forall_mem_singleton, there]
    intro content e
    cases e

/-- The first script is rewritten, too. -/
def twice (p : Path) : Session Workspace := (once p).edit ["src", "a.js"] "B" 2

private theorem bundle_twice (p : Path) : (twice p).bundle = bundle := by rw [twice, Session.edit_bundle, bundle_once]

private theorem lived_twice (p : Path) : Lived ⟨"/"⟩ [] [first.text, second.text] {}
    [(twice p).world.disk, (once p).world.disk, project.disk] (twice p) := by
  have here : (asked p).world.disk = project.disk := List.mem_singleton.1 (lived_asked p).informed.here
  have there : project.disk.node? ["src", "a.js"] = some (.file "A".toUTF8 0) := by decide +kernel
  have there' : (once p).world.disk.node? ["src", "a.js"] = some (.file "A".toUTF8 0) := by
    rw [once, Session.edit, here, Disk.node?_put (by decide), if_neg (by decide), there]
  refine (lived_once p).edit (by decide) there' "B" (fun dialect => (loads_same dialect).2) ?_ 2 ?_
  · rw [no_manifest (by simp), no_manifest (by simp)]
  · rw [List.forall_mem_cons, List.forall_mem_singleton, there, there']
    refine ⟨fun content e => ?_, fun content e => ?_⟩
    all_goals cases e

/-- The first script in another spelling. -/
def plain : Path := ⟨"/src/a.js"⟩

/-- The workspace of the session that is made when the second script has been rewritten. -/
def renewed : Workspace := { found with disk := (once first).world.disk }

/-- What a script comes to. -/
def output (w : Workspace) (p : Path) : Attempted Compiled := (bundle.compileOutput atRoot (some [p]) w).1

end Chained

/-- The second script is asked for before and after both scripts are rewritten. -/
theorem compileOutput_after_edits_chained : ∃ ds s v out,
    Lived ⟨"/"⟩ [] [Chained.first.text, Chained.second.text] {} ds s ∧ ds.length = 3 ∧ s.world.loads.length = 2 ∧
    (Bundle.of atRoot [Chained.first.text, Chained.second.text] {}).Gives { disk := s.world.disk } s.bundle v ∧
    (s.bundle.compileOutput atRoot (some [Chained.second]) s.world).1 = .ok out ∧
    (s.bundle.compileOutput atRoot (some [Chained.second]) v).1 = .ok out ∧ out.code = "B\n\nimport './a.js'; B" := by
  have lived := Chained.lived_twice Chained.second
  have facts : (Chained.output (Chained.twice Chained.second).world Chained.second).isOk = true ∧
      (Chained.twice Chained.second).world.loads.length = 2 ∧
      ((Chained.output (Chained.twice Chained.second).world Chained.second).toOption.getD default).code =
        "B\n\nimport './a.js'; B" ∧
      ∀ p ∈ ((Chained.output (Chained.twice Chained.second).world Chained.second).toOption.getD default).traced,
        ∀ l ∈ (Chained.twice Chained.second).world.loads, (l.path == p) = true → l.path.text = p.text := by
    decide +kernel
  rw [Chained.output, ← Chained.bundle_twice Chained.second] at facts
  generalize Chained.twice Chained.second = s at lived facts
  obtain ⟨answered, loaded, code, spelled⟩ := facts
  obtain ⟨v, anew, alike⟩ := compileOutput_after_edits lived (some [Chained.second])
  have ho := Action.eq_ok_of_isOk answered
  obtain ⟨out', ho'⟩ := Action.isOk_iff.1 (alike.isOk_eq ▸ answered)
  obtain ⟨-, -, -, -, -, same⟩ := alike.of_ok ho ho'
  have same := same fun p hp l hl e => congrArg Path.mk (spelled p hp l hl e)
  exact ⟨_, s, v, _, lived, rfl, loaded, anew, ho, ho'.trans (congrArg _ same.symm), code⟩

/-- The first script was asked for as `/src//a.js` when its bundle was young. When it is asked for as `/src/a.js` after
an edit of the second script, its map still has the old name. -/
theorem compileOutput_remembers_name : ∃ ds s v out out',
    Lived ⟨"/"⟩ [] [Chained.first.text, Chained.second.text] {} ds s ∧
    (Bundle.of atRoot [Chained.first.text, Chained.second.text] {}).Gives { disk := s.world.disk } s.bundle v ∧
    (s.bundle.compileOutput atRoot (some [Chained.plain]) s.world).1 = .ok out ∧
    (s.bundle.compileOutput atRoot (some [Chained.plain]) v).1 = .ok out' ∧
    out.map.marks.map (·.source) = [some "src//a.js"] ∧ out'.map.marks.map (·.source) = [some "src/a.js"] := by
  have lived := Chained.lived_once Chained.first
  have edited := lived.informed.edited Chained.project.disk (by simp)
  have literal : Glob.Literal Chained.project.disk [Chained.first.text, Chained.second.text] := by decide +kernel
  obtain ⟨-, -, anew⟩ := gives_of_edited edited literal Chained.made
  have answered : (Chained.output (Chained.once Chained.first).world Chained.plain).isOk = true ∧
      (Chained.output Chained.renewed Chained.plain).isOk = true := by decide +kernel
  have named : ((Chained.output (Chained.once Chained.first).world Chained.plain).toOption.getD default).map.marks.map
        (·.source) = [some "src//a.js"] ∧
      ((Chained.output Chained.renewed Chained.plain).toOption.getD default).map.marks.map (·.source) =
        [some "src/a.js"] := by decide +kernel
  have ho := Action.eq_ok_of_isOk answered.1
  have ho' := Action.eq_ok_of_isOk answered.2
  generalize (Chained.output (Chained.once Chained.first).world Chained.plain).toOption.getD default = out at ho named
  generalize (Chained.output Chained.renewed Chained.plain).toOption.getD default = out' at ho' named
  rw [Chained.output, ← Chained.bundle_once Chained.first] at ho ho'
  rw [← Chained.bundle_once Chained.first] at anew
  exact ⟨_, _, _, _, _, lived, anew, ho, ho', named⟩

end Bundle

end ScriptBundler
