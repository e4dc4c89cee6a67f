import ScriptBundler.Bundle.Session
import ScriptBundler.Proofs.Bundle.Requests

/-!
# What requests keep

A request is put together from what a bundle asks of its collaborators: traces of single entries, loads, events and
streams. So what each of these keeps is kept by every request (`answer_keeps`), unless the request is one that finds the
bundle anew, or changes the world itself.
-/

namespace ScriptBundler

variable {σ : Type} {c : Collaborators σ} {b : Bundle} {I : σ → Prop}

/-- Nothing that the bundle asks for leads out of the worlds of `I`. -/
structure Collaborators.Keeping (c : Collaborators σ) (b : Bundle) (I : σ → Prop) : Prop where
  trace : ∀ p, b.isEntry p = true → (c.trace [p]).Keeps I
  load : ∀ p, (c.load p).Keeps I
  emit : ∀ e w, I w → I (c.emit e w)
  watch : ∀ callback, (c.watch b callback).Keeps I

namespace Bundle

variable (h : c.Keeping b I)
include h

private theorem workingList_keeps (ps : List Path) : (b.workingList c ps).Keeps I := by
  induction ps with
  | nil => exact .pure ([], [])
  | cons p ps ih =>
    rw [workingList]
    split
    · rename_i hp
      have files : (b.filesOf c p).Keeps I := (h.trace p hp).bind fun fs => .pure (b.listing p (fs.map (·.path)))
      exact files.bind fun files => ih.bind fun lists => .pure (files ++ lists.1, p :: lists.2)
    · exact ih

private theorem assemble_keeps (traced bundled : List Path) : (b.assemble c traced bundled).Keeps I := by
  have loads (ps : List Path) (index : Nat) (a : Assembly) : (assembleFrom c traced bundled index a ps).Keeps I := by
    induction ps generalizing index a with
    | nil => exact .pure a
    | cons p ps ih =>
      have load : ((c.load p).during (.loadFile p)).Keeps I := fun w hw => h.load p w hw
      refine load.bind fun f => Action.Keeps.bind (fun w hw => h.emit _ w hw) fun _ => ih _ _
  exact (loads traced 0 {}).bind fun a => .pure _

private theorem compileOutput_keeps (paths : Option (List Path)) : (b.compileOutput c paths).Keeps I := by
  have asked : (b.asked c paths).Keeps I := by
    cases paths with
    | none => exact .pure b.files
    | some ps =>
      intro w hw
      rw [Bundle.asked, requested_apply]
      exact hw
  rw [compileOutput_eq]
  exact asked.bind fun es => (workingList_keeps h es).bind fun lists => assemble_keeps h lists.1 lists.2

private theorem compile_keeps (paths : Option (List Path)) : (b.compile c paths).Keeps I :=
  (compileOutput_keeps h paths).bind fun out => .pure out.render

private theorem compileOne_keeps (p : Path) : (b.compileOne c p).Keeps I := by
  unfold compileOne
  split
  · exact (h.load p).bind fun f => .pure f.code
  · exact .pure ""

private theorem destinations_keeps (p : Path) : (b.destinations c p).Keeps I := by
  have entries (es : List Path) (hes : ∀ e ∈ es, b.isEntry e = true) : (entriesWith c.trace p es).Keeps I := by
    induction es with
    | nil => exact .pure []
    | cons e es ih =>
      rw [List.forall_mem_cons] at hes
      refine (h.trace e hes.1).bind fun fs => (ih hes.2).bind fun rest => ?_
      split
      · exact .pure _
      · exact .pure _
  unfold destinations destinationsOf
  split
  · exact .pure _
  · exact entries b.files fun e he => isEntry_of_mem he

private theorem pipe_keeps (s : FileStream) (files : List FileObject) : (s.pipe c b files).Keeps I := by
  refine Action.Keeps.mapM (fun f => ?_) files
  cases s with
  | compile => exact (compile_keeps h _).bind fun text => .pure _
  | compileOne => exact (compileOne_keeps h _).bind fun text => .pure _
  | pass => exact .pure f

end Bundle

namespace Session

/-- A request that leaves the bundle alone, and does not change the world by itself. -/
def Asks : Request σ → Prop
  | .refresh => False
  | .change _ => False
  | _ => True

theorem answer_keeps (h : c.Keeping b I) (r : Request σ) (asks : Asks r) : (answer c b r).Keeps I := by
  cases r with
  | refresh => cases asks
  | change f => cases asks
  | compile paths => exact (Bundle.compile_keeps h paths).bind fun text => .pure _
  | compileOutput paths => exact (Bundle.compileOutput_keeps h paths).bind fun out => .pure _
  | compileCommon => exact ((Bundle.assemble_keeps h _ _).bind fun out => .pure out.render).bind fun text => .pure _
  | compileOne p => exact (Bundle.compileOne_keeps h p).bind fun text => .pure _
  | destinations p => exact (Bundle.destinations_keeps h p).bind fun ps => .pure _
  | stream s files => exact (Bundle.pipe_keeps h s files).bind fun fs => .pure _
  | watch condition callback files =>
    have piped (s : FileStream) : ((s.pipe c b files) >>= fun fs => pure (Reply.files fs)).Keeps I :=
      (Bundle.pipe_keeps h s files).bind fun fs => .pure _
    cases condition with
    | none => exact (h.watch callback).bind piped
    | some holds =>
      cases holds with
      | false => exact Action.Keeps.bind (.pure FileStream.pass) piped
      | true => exact (h.watch callback).bind piped

end Session

end ScriptBundler
