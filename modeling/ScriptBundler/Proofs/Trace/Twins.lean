import ScriptBundler.Proofs.Pairs
import ScriptBundler.Proofs.Path.Pairs
import ScriptBundler.Trace.Import

/-!
# Traces in pairs

Two tracers go along if related files hold the same text, and what a file asks for is found, for both files, at related
paths or for neither (`ImportTracer.Along`). Step by step they remember and list related files, so that the traces of
related paths are related, or both fail (`ImportTracer.Along.trace`).
-/

namespace ScriptBundler

variable {t t' : ImportTracer} {d : Disk} {R : Path → Path → Prop} {m m' : ImportMemory} {w w' : ImportTracer.Walk}
  {x y : Path} {xs ys : List Path} {request : String} {loads : List Script.Load}

/-- The script at a path, or at a path equal to it, makes a request. -/
def Asked (d : Disk) (R : Path → Path → Prop) (x : Path) (request : String) : Prop :=
  ∃ x' y' text loads, R x' y' ∧ (x' == x) = true ∧ d.readText x' = .ok text ∧ requestsOf x' text = .ok loads ∧
    ∃ load ∈ loads, load.request = request

private theorem Asked.congr {x' : Path} (h : Asked d R x request) (same : (x == x') = true) : Asked d R x' request := by
  obtain ⟨x₁, y₁, text, loads, related, e, rest⟩ := h
  exact ⟨x₁, y₁, text, loads, related, BEq.trans e same, rest⟩

/-- Two tracers read the same of related files, and find related files. -/
structure ImportTracer.Along (t t' : ImportTracer) (d : Disk) (R : Path → Path → Prop) : Prop where
  matching : Path.Matching R
  followsLazy : t.followsLazy = t'.followsLazy
  isScript : ∀ x y, R x y → x.isScript = y.isScript
  dialect : ∀ x y, R x y → x.isScript = true → x.dialect = y.dialect
  readText : ∀ x y, R x y → (d.readText x).toOption = (d.readText y).toOption
  find : ∀ x y request, R x y → Asked d R x request →
    Option.Rel R (t.resolver.find d x request) (t'.resolver.find d y request)

/-- Two memories hold the same of related files. -/
structure ImportMemory.Along (d : Disk) (R : Path → Path → Prop) (m m' : ImportMemory) : Prop where
  requests : List.Forall₂ (fun a b => R a.1 b.1 ∧ a.2 = b.2 ∧ ∀ load ∈ a.2, Asked d R a.1 load.request) m.requests m'.requests
  resolutions : List.Forall₂ (fun a b => R a.1.1 b.1.1 ∧ a.1.2 = b.1.2 ∧ Option.Rel R a.2 b.2) m.resolutions m'.resolutions

/-- Two walks have opened and listed related files. -/
structure ImportTracer.Walk.Along (R : Path → Path → Prop) (w w' : ImportTracer.Walk) : Prop where
  opened : List.Forall₂ R w.opened w'.opened
  done : List.Forall₂ R w.done w'.done
  files : List.Forall₂ (fun f g => R f.path g.path ∧ List.Forall₂ R f.dependencies g.dependencies) w.files w'.files

namespace ImportTracer.Along

variable (h : t.Along t' d R)
include h

private theorem requests? (hm : m.Along d R m') (hx : R x y) : m.requests? x = m'.requests? y ∧
    ∀ loads, m.requests? x = some loads → ∀ load ∈ loads, Asked d R x load.request := by
  obtain ⟨rows, -⟩ := hm
  unfold ImportMemory.requests?
  generalize m.requests = as, m'.requests = bs at rows
  induction rows with
  | nil => exact ⟨rfl, nofun⟩
  | @cons a b as bs row _ ih =>
    obtain ⟨related, same, asked⟩ := row
    have found := h.matching _ _ _ _ related hx
    rw [List.find?_cons, List.find?_cons, ← found]
    by_cases here : (a.1 == x) = true
    · rw [here]
      refine ⟨congrArg some same, ?_⟩
      rintro loads ⟨⟩ load hload
      exact (asked load hload).congr here
    · rw [Bool.not_eq_true] at here
      rw [here]
      exact ih

private theorem importsFor (hx : R x y) (script : x.isScript = true) : (importsFor d x).Paired (ImportMemory.Along d R)
    (fun _ _ => True) (fun loads loads' => loads = loads' ∧ ∀ load ∈ loads, Asked d R x load.request)
    (importsFor d y) := by
  unfold ScriptBundler.importsFor
  refine .bind .get fun m m' hm => ?_
  obtain ⟨same, asked⟩ := h.requests? hm hx
  rw [← same]
  rcases remembered : m.requests? x with _ | loads
  · have texts := h.readText x y hx
    have dialects := h.dialect x y hx script
    refine .bind (R := fun text text' => text = text' ∧ d.readText x = .ok text) (.lift ?_) ?_
    · generalize d.readText x = r, d.readText y = r' at texts
      rcases r with e | text <;> rcases r' with e' | text'
      · exact .error trivial
      · nomatch texts
      · nomatch texts
      · cases Option.some.inj texts
        exact .ok ⟨rfl, rfl⟩
    rintro text _ ⟨rfl, read⟩
    refine .bind (R := fun loads loads' => loads = loads' ∧ requestsOf x text = .ok loads) (.lift ?_) ?_
    · unfold requestsOf
      rw [← dialects]
      rcases Script.loads? x.dialect text with _ | loads
      · exact .error trivial
      · exact .ok ⟨rfl, rfl⟩
    rintro loads _ ⟨rfl, parsed⟩
    have asked : ∀ load ∈ loads, Asked d R x load.request := fun load hload =>
      ⟨x, y, text, loads, hx, BEq.rfl, read, parsed, load, hload, rfl⟩
    refine .bind (.modify fun m m' hm => ?_) fun _ _ _ => .pure ⟨rfl, asked⟩
    exact ⟨.cons ⟨hx, rfl, asked⟩ hm.requests, hm.resolutions⟩
  · exact .pure ⟨rfl, asked loads remembered⟩

private theorem get? {rs rs' : Resolutions}
    (hrs : List.Forall₂ (fun a b => R a.1.1 b.1.1 ∧ a.1.2 = b.1.2 ∧ Option.Rel R a.2 b.2) rs rs')
    (hx : R x y) : Option.Rel (Option.Rel R) (rs.get? x request) (rs'.get? y request) := by
  unfold Resolutions.get?
  induction hrs with
  | nil => exact .none
  | @cons a b rs rs' row _ ih =>
    obtain ⟨related, same, found⟩ := row
    have here_iff : (b.1.1 == y && decide (b.1.2 = request)) = (a.1.1 == x && decide (a.1.2 = request)) := by
      rw [h.matching _ _ _ _ related hx, same]
    rw [List.find?_cons, List.find?_cons]
    dsimp only
    rw [here_iff]
    cases a.1.1 == x && decide (a.1.2 = request) with
    | true => exact .some found
    | false => exact ih

private theorem resolve (hm : m.Along d R m') (hx : R x y) (asked : Asked d R x request) :
    Option.Rel R (t.resolve d x request m).1 (t'.resolve d y request m').1 ∧
      (t.resolve d x request m).2.Along d R (t'.resolve d y request m').2 := by
  have remembered : Option.Rel _ (m.resolutions.get? x request) _ := h.get? hm.resolutions hx
  have found := h.find x y request hx asked
  unfold ImportTracer.resolve Resolver.resolve
  simp only [bind, StateT.bind, get, getThe, MonadStateOf.get, StateT.get, pure, modify, modifyGet, MonadStateOf.modifyGet]
  generalize m.resolutions.get? x request = r, m'.resolutions.get? y request = r' at remembered
  cases remembered with
  | none => exact ⟨found, hm.requests, .cons ⟨hx, rfl, found⟩ hm.resolutions⟩
  | some same => exact ⟨same, hm.requests, hm.resolutions⟩

private theorem resolveAll {found found' : List Path} (hm : m.Along d R m') (hx : R x y)
    (asked : ∀ load ∈ loads, Asked d R x load.request) (hf : List.Forall₂ R found found') :
    List.Forall₂ R (t.resolveAll d x found loads m).1 (t'.resolveAll d y found' loads m').1 ∧
      (t.resolveAll d x found loads m).2.Along d R (t'.resolveAll d y found' loads m').2 := by
  induction loads generalizing m m' found found' with
  | nil => exact ⟨hf, hm⟩
  | cons load loads ih =>
    rw [List.forall_mem_cons] at asked
    rw [ImportTracer.resolveAll, ImportTracer.resolveAll, ← h.followsLazy]
    split
    · exact ih hm asked.2 hf
    · have one := h.resolve hm hx asked.1
      simp only [bind, StateT.bind]
      generalize t.resolve d x load.request m = r, t'.resolve d y load.request m' = r' at one
      obtain ⟨r, m₁⟩ := r
      obtain ⟨r', m₁'⟩ := r'
      obtain ⟨related, hm₁⟩ := one
      cases related with
      | none => exact ih hm₁ asked.2 hf
      | some related =>
        dsimp only
        rw [h.matching.any hf related]
        split
        · exact ih hm₁ asked.2 hf
        · exact ih hm₁ asked.2 (List.rel_append hf (.cons related .nil))

private theorem dependencies (hx : R x y) :
    (t.dependencies d x).Paired (ImportMemory.Along d R) (fun _ _ => True) (List.Forall₂ R) (t'.dependencies d y) := by
  unfold ImportTracer.dependencies
  rw [← h.isScript x y hx]
  split
  · rename_i script
    refine .bind (h.importsFor hx script) ?_
    rintro loads _ ⟨rfl, asked⟩ m m' hm
    obtain ⟨found, remembered⟩ := h.resolveAll hm hx asked .nil
    exact ⟨.ok found, remembered⟩
  · exact .pure .nil

/-! ### Walks -/

private theorem visit (fuel : Nat) (hw : w.Along R w') (hx : R x y) :
    (t.visit d fuel w x).Paired (ImportMemory.Along d R) (fun _ _ => True) (Walk.Along R) (t'.visit d fuel w' y) := by
  induction fuel generalizing w w' x y with
  | zero => exact .pure hw
  | succ fuel ih =>
    rw [ImportTracer.visit, ImportTracer.visit, h.matching.any hw.done hx, h.matching.any hw.opened hx]
    split
    · exact .pure hw
    · refine .bind (h.dependencies hx) fun deps deps' hdeps => ?_
      have opened : Walk.Along R { w with opened := x :: w.opened } { w' with opened := y :: w'.opened } :=
        ⟨.cons hx hw.opened, hw.done, hw.files⟩
      have walked := Action.Paired.foldlM_forall₂ (f := t.visit d fuel) (g := t'.visit d fuel)
        (fun _ _ _ _ hw hx => ih hw hx) hdeps opened
      refine walked.bind fun v v' hv => .pure ?_
      refine ⟨?_, .cons hx hv.done, List.rel_append hv.files (.cons ⟨hx, hdeps⟩ .nil)⟩
      exact List.rel_filter (fun _ _ h' => by simp [h.matching _ _ _ _ h' hx]) hv.opened

/-- The traces of related paths list related files, or both fail. -/
theorem trace (hxs : List.Forall₂ R xs ys) : (t.trace d xs).Paired (ImportMemory.Along d R) (fun _ _ => True)
    (List.Forall₂ fun f g => R f.path g.path ∧ List.Forall₂ R f.dependencies g.dependencies) (t'.trace d ys) := by
  have one : ∀ x y, R x y → (t.traceOne d x).Paired (ImportMemory.Along d R) (fun _ _ => True)
      (List.Forall₂ fun f g => R f.path g.path ∧ List.Forall₂ R f.dependencies g.dependencies) (t'.traceOne d y) := by
    intro x y hx
    refine .bind .get fun m m' hm => ?_
    rw [hm.resolutions.length_eq]
    exact .bind (h.visit _ ⟨.nil, .nil, .nil⟩ hx) fun v v' hv => .pure hv.files
  exact .bind (.mapM one hxs) fun _ _ h => .pure (List.rel_flatten h)

end ImportTracer.Along

end ScriptBundler
