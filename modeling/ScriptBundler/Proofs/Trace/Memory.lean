import Mathlib.Data.List.Basic
import ScriptBundler.Proofs.Action
import ScriptBundler.Proofs.Trace.Resolve
import ScriptBundler.Trace.Import

/-!
# What a tracer remembers

A tracer reads a script once and resolves a request once. What it answers for a file depends on what it remembers of that
file, and else on the disk (`ImportTracer.needs`).

* `dependencies_eq` says all that asking for a file does: the answer is `needs`, nothing that was remembered is lost, and
  nothing is learned of other files (`Learns`);
* once a file has been answered for, the memory `Remembers` the answer, and gives it from then on, whatever the disk and
  however the file is spelled (`Remembers.gives`).
-/

namespace ScriptBundler

variable {m m' m'' : ImportMemory} {p q : Path}

/-! ### Looking things up -/

private theorem Path.isScript_congr (h : (p == q) = true) : p.isScript = q.isScript := by
  unfold isScript extension? fileName?
  rw [Path.beq_iff.1 h]

theorem Resolutions.get?_congr {rs : Resolutions} {r : String} (h : (p == q) = true) : rs.get? p r = rs.get? q r := by
  unfold get?
  simp only [BEq.congr_right h]

private theorem Resolutions.get?_cons {rs : Resolutions} {r s : String} {found : Option Path} :
    Resolutions.get? (((p, r), found) :: rs) q s = if (p == q) = true ∧ r = s then some found else rs.get? q s := by
  unfold get?
  rw [List.find?_cons]
  by_cases h : (p == q) = true ∧ r = s
  · simp [h]
  · have e : (p == q && decide (r = s)) = false := by simpa using h
    rw [if_neg h]
    simp only [e]

namespace ImportMemory

private theorem requests?_congr (h : (p == q) = true) : m.requests? p = m.requests? q := by
  unfold requests?
  simp only [BEq.congr_right h]

private theorem requests?_cons {rows : List (Path × List Script.Load)} {rs : Resolutions} {loads : List Script.Load} :
    requests? ⟨(p, loads) :: rows, rs⟩ q = if (p == q) = true then some loads else requests? ⟨rows, rs⟩ q := by
  unfold requests?
  rw [List.find?_cons]
  split <;> simp_all

/-- The files to which requests were found to lead. -/
def found (m : ImportMemory) : List Path := m.resolutions.filterMap (·.2)

private theorem mem_found {r : String} (h : m.resolutions.get? p r = some (some q)) : q ∈ m.found := by
  obtain ⟨row, hrow, e⟩ := Option.map_eq_some_iff.1 h
  exact List.mem_filterMap.2 ⟨row, List.mem_of_find?_eq_some hrow, e⟩

/-- Nothing that one memory holds is missing in the other, or is different there. -/
structure Within (m m' : ImportMemory) : Prop where
  requests : ∀ {q loads}, m.requests? q = some loads → m'.requests? q = some loads
  resolutions : ∀ {q r found}, m.resolutions.get? q r = some found → m'.resolutions.get? q r = some found

theorem Within.refl (m : ImportMemory) : m.Within m := ⟨id, id⟩

theorem Within.trans (h : m.Within m') (k : m'.Within m'') : m.Within m'' :=
  ⟨fun hl => k.requests (h.requests hl), fun hf => k.resolutions (h.resolutions hf)⟩

end ImportMemory

namespace ImportTracer

variable {t : ImportTracer} {d : Disk} {r : String}

/-! ### Answers -/

/-- The file to which a request leads, as it is remembered or else found. -/
def target (t : ImportTracer) (d : Disk) (m : ImportMemory) (p : Path) (request : String) : Option Path :=
  (m.resolutions.get? p request).getD (t.resolver.find d p request)

/-- The requests that are followed. -/
def followed (t : ImportTracer) (loads : List Script.Load) : List String :=
  (loads.filter fun l => ¬ (l.kind = .lazy ∧ ¬ t.followsLazy)).map (·.request)

/-- A file is added once, and no file is no addition. -/
def add (found : List Path) : Option Path → List Path
  | none => found
  | some q => if found.any (· == q) then found else found ++ [q]

private theorem followed_cons_of_lazy {load : Script.Load} {loads : List Script.Load}
    (h : load.kind = .lazy ∧ ¬ t.followsLazy) : t.followed (load :: loads) = t.followed loads := by
  unfold followed
  rw [List.filter_cons, if_neg (by simpa using h)]

private theorem followed_cons {load : Script.Load} {loads : List Script.Load}
    (h : ¬ (load.kind = .lazy ∧ ¬ t.followsLazy)) : t.followed (load :: loads) = load.request :: t.followed loads := by
  unfold followed
  rw [List.filter_cons, if_pos (by exact decide_eq_true h), List.map_cons]

/-- The files to which the requests of a script lead. -/
def targets (t : ImportTracer) (d : Disk) (m : ImportMemory) (p : Path) (found : List Path)
    (loads : List Script.Load) : List Path :=
  (t.followed loads).foldl (fun found request => add found (t.target d m p request)) found

/-- The requests of a script, as they are remembered or else read. -/
def loadsOf (d : Disk) (m : ImportMemory) (p : Path) : Attempted (List Script.Load) :=
  match m.requests? p with
  | some loads => .ok loads
  | none => do requestsOf p (← (Attempted.of .disk (d.readText p)).during (.readFile p))

/-- The files that a file asks for itself, given what is remembered. -/
def needs (t : ImportTracer) (d : Disk) (m : ImportMemory) (p : Path) : Attempted (List Path) :=
  if p.isScript then (loadsOf d m p).map (t.targets d m p []) else .ok []

/-! ### What is learned -/

/-- What may be learned by asking for a file: its requests, and to which files they lead on the disk. -/
structure Learns (t : ImportTracer) (d : Disk) (p : Path) (m m' : ImportMemory) : Prop where
  within : m.Within m'
  requests : ∀ {q}, ¬ (p == q) = true → m'.requests? q = m.requests? q
  resolutions : ∀ {q r}, ¬ (p == q) = true → m'.resolutions.get? q r = m.resolutions.get? q r
  target : ∀ r, t.target d m' p r = t.target d m p r
  found : ∀ q ∈ m'.found, q ∈ m.found ∨ q ∈ d.paths

private theorem Learns.refl (m : ImportMemory) : t.Learns d p m m where
  within := .refl m
  requests _ := rfl
  resolutions _ := rfl
  target _ := rfl
  found _ hq := .inl hq

private theorem Learns.trans (h : t.Learns d p m m') (k : t.Learns d p m' m'') : t.Learns d p m m'' where
  within := h.within.trans k.within
  requests hq := (k.requests hq).trans (h.requests hq)
  resolutions hq := (k.resolutions hq).trans (h.resolutions hq)
  target r := (k.target r).trans (h.target r)
  found q hq := (k.found q hq).elim (h.found q) .inr

/-- What is asked for other files is answered as before. -/
theorem Learns.needs (h : t.Learns d p m m') (hq : ¬ (p == q) = true) : t.needs d m' q = t.needs d m q := by
  have target_eq : t.target d m' q = t.target d m q := by
    funext r
    unfold ImportTracer.target
    rw [h.resolutions hq]
  have loads_eq : loadsOf d m' q = loadsOf d m q := by
    unfold loadsOf
    rw [h.requests hq]
  unfold ImportTracer.needs targets
  rw [loads_eq, target_eq]

private theorem learns_resolution (h : m.resolutions.get? p r = none) :
    t.Learns d p m ⟨m.requests, ((p, r), t.resolver.find d p r) :: m.resolutions⟩ where
  within := by
    refine ⟨id, fun {q s found} hf => ?_⟩
    rw [Resolutions.get?_cons, if_neg]
    · exact hf
    · -- what is remembered is not what is added
      rintro ⟨hpq, rfl⟩
      rw [← Resolutions.get?_congr hpq, h] at hf
      cases hf
  requests _ := rfl
  resolutions hq := by
    rw [Resolutions.get?_cons, if_neg]
    exact fun k => hq k.1
  target s := by
    unfold target
    rw [Resolutions.get?_cons]
    split
    · rename_i k
      rw [← k.2, h]
      rfl
    · rfl
  found q hq := by
    rcases List.mem_filterMap.1 hq with ⟨row, hrow, e⟩
    rcases List.mem_cons.1 hrow with rfl | hrow
    · exact .inr (Resolver.find_mem_paths e)
    · exact .inl (List.mem_filterMap.2 ⟨row, hrow, e⟩)

private theorem learns_requests {loads : List Script.Load} (h : m.requests? p = none) :
    t.Learns d p m ⟨(p, loads) :: m.requests, m.resolutions⟩ where
  within := by
    refine ⟨fun {q ls} hl => ?_, id⟩
    rw [ImportMemory.requests?_cons, if_neg]
    · exact hl
    · intro hpq
      rw [← ImportMemory.requests?_congr hpq, h] at hl
      cases hl
  requests hq := by
    rw [ImportMemory.requests?_cons, if_neg hq]
  resolutions _ := rfl
  target _ := rfl
  found _ hq := .inl hq

/-- The answer for a file is remembered: its requests, and where each of them leads. No disk matters to it. -/
inductive Remembers (t : ImportTracer) (m : ImportMemory) (p : Path) : List Path → Prop where
  | script {loads : List Script.Load} (hp : p.isScript = true) (hl : m.requests? p = some loads)
    (hr : ∀ r ∈ t.followed loads, (m.resolutions.get? p r).isSome = true) (d : Disk) :
    Remembers t m p (t.targets d m p [] loads)
  | plain (hp : ¬ p.isScript = true) : Remembers t m p []

/-! ### Asking -/

private theorem resolve_of_remembered {found : Option Path} (h : m.resolutions.get? p r = some found) :
    t.resolve d p r m = (found, m) := by
  unfold resolve Resolver.resolve
  simp only [bind, StateT.bind, get, getThe, MonadStateOf.get, StateT.get, pure, h]
  rfl

private theorem resolve_of_forgotten (h : m.resolutions.get? p r = none) :
    t.resolve d p r m =
      (t.resolver.find d p r, ⟨m.requests, ((p, r), t.resolver.find d p r) :: m.resolutions⟩) := by
  unfold resolve Resolver.resolve
  simp only [bind, StateT.bind, get, getThe, MonadStateOf.get, StateT.get, pure, h]
  rfl

/-- To resolve a request is to answer it and to remember the answer. -/
private theorem resolve_eq : ∃ m', t.resolve d p r m = (t.target d m p r, m') ∧ t.Learns d p m m' ∧
    (∀ q, m'.requests? q = m.requests? q) ∧ m'.resolutions.get? p r = some (t.target d m p r) := by
  unfold target
  cases h : m.resolutions.get? p r with
  | some found => exact ⟨m, resolve_of_remembered h, .refl m, fun _ => rfl, h⟩
  | none =>
    refine ⟨_, resolve_of_forgotten h, learns_resolution h, fun _ => rfl, ?_⟩
    rw [Resolutions.get?_cons, if_pos ⟨BEq.rfl, rfl⟩]
    rfl

private theorem resolveAll_lazy {load : Script.Load} {loads : List Script.Load} {found : List Path}
    (h : load.kind = .lazy ∧ ¬ t.followsLazy) :
    t.resolveAll d p found (load :: loads) = t.resolveAll d p found loads := by
  rw [resolveAll, if_pos h]

private theorem resolveAll_followed {load : Script.Load} {loads : List Script.Load} {found : List Path} {x : Option Path}
    (h : ¬ (load.kind = .lazy ∧ ¬ t.followsLazy)) (e : t.resolve d p load.request m = (x, m')) :
    t.resolveAll d p found (load :: loads) m = t.resolveAll d p (add found x) loads m' := by
  rw [resolveAll, if_neg h]
  simp only [bind, StateT.bind, e]
  cases x <;> rfl

/-- The requests of a script are followed one after the other. -/
private theorem resolveAll_eq (loads : List Script.Load) (found : List Path) (m : ImportMemory) :
    ∃ m', t.resolveAll d p found loads m = (t.targets d m p found loads, m') ∧ t.Learns d p m m' ∧
      (∀ q, m'.requests? q = m.requests? q) ∧
      ∀ r ∈ t.followed loads, m'.resolutions.get? p r = some (t.target d m p r) := by
  induction loads generalizing found m with
  | nil => exact ⟨m, rfl, .refl m, fun _ => rfl, by simp [followed]⟩
  | cons load loads ih =>
    by_cases hl : load.kind = .lazy ∧ ¬ t.followsLazy
    · obtain ⟨m', e, learns, hm, hr⟩ := ih found m
      have targets_eq : t.targets d m p found (load :: loads) = t.targets d m p found loads := by
        rw [targets, followed_cons_of_lazy hl, targets]
      exact ⟨m', by rw [resolveAll_lazy hl, e, targets_eq], learns, hm, by rwa [followed_cons_of_lazy hl]⟩
    · -- what is learned from the first request does not change where the others lead
      obtain ⟨m₁, e₁, learns₁, hm₁, hr₁⟩ := resolve_eq (t := t) (d := d) (p := p) (r := load.request) (m := m)
      obtain ⟨m', e, learns, hm, hr⟩ := ih (add found (t.target d m p load.request)) m₁
      have targets_eq : t.targets d m₁ p (add found (t.target d m p load.request)) loads =
          t.targets d m p found (load :: loads) := by
        rw [targets, targets, followed_cons hl, List.foldl_cons, funext learns₁.target]
      refine ⟨m', by rw [resolveAll_followed hl e₁, e, targets_eq], learns₁.trans learns,
        fun q => (hm q).trans (hm₁ q), fun r hr' => ?_⟩
      rcases List.mem_cons.1 (followed_cons hl ▸ hr') with rfl | hr'
      · exact learns.within.resolutions hr₁
      · rw [hr r hr', learns₁.target]

theorem importsFor_of_remembered {loads : List Script.Load} (h : m.requests? p = some loads) :
    importsFor d p m = (.ok loads, m) := by
  unfold importsFor
  rw [Action.bind_apply]
  show (match m.requests? p with
    | some loads => pure loads
    | none => _ : Action ImportMemory (List Script.Load)) m = _
  rw [h]
  rfl

theorem importsFor_of_forgotten (h : m.requests? p = none) :
    importsFor d p m = (loadsOf d m p, match loadsOf d m p with
      | .ok loads => ⟨(p, loads) :: m.requests, m.resolutions⟩
      | .error _ => m) := by
  unfold importsFor loadsOf
  rw [Action.bind_apply]
  show (match m.requests? p with
    | some loads => pure loads
    | none => _ : Action ImportMemory (List Script.Load)) m = _
  rw [h]
  simp only [Action.bind_apply, Action.lift]
  rcases (Attempted.of .disk (d.readText p)).during (.readFile p) with f | text
  · rfl
  · rcases e : requestsOf p text with f | loads
    · simp only [e, bind, Except.bind]
    · simp only [e, bind, Except.bind]
      rfl

/-- To ask for the requests of a script is to answer them and to remember the answer. -/
private theorem importsFor_eq : ∃ m', importsFor d p m = (loadsOf d m p, m') ∧ t.Learns d p m m' ∧
    ∀ loads, loadsOf d m p = .ok loads ↔ m'.requests? p = some loads := by
  cases h : m.requests? p with
  | some loads =>
    have e : loadsOf d m p = .ok loads := by rw [loadsOf, h]
    rw [e]
    refine ⟨m, importsFor_of_remembered h, .refl m, fun loads' => ?_⟩
    rw [h, Except.ok.injEq, Option.some_inj]
  | none =>
    rw [importsFor_of_forgotten h]
    rcases loadsOf d m p with f | loads
    · exact ⟨m, rfl, .refl m, fun loads => by simp [h]⟩
    · refine ⟨_, rfl, learns_requests h, fun loads' => ?_⟩
      rw [ImportMemory.requests?_cons, if_pos BEq.rfl, Except.ok.injEq, Option.some_inj]

/-- To ask for a file is to answer for it. -/
theorem dependencies_eq (t : ImportTracer) (d : Disk) (p : Path) (m : ImportMemory) :
    ∃ m', t.dependencies d p m = (t.needs d m p, m') ∧ t.Learns d p m m' ∧
      ∀ ps, t.needs d m p = .ok ps → t.Remembers m' p ps := by
  unfold dependencies needs
  split
  · rename_i hp
    obtain ⟨m₁, e₁, learns₁, hl⟩ := importsFor_eq (t := t) (d := d) (p := p) (m := m)
    rw [Action.bind_apply, e₁]
    rcases e : loadsOf d m p with f | loads
    · exact ⟨m₁, rfl, learns₁, nofun⟩
    · obtain ⟨m', e', learns, hm, hr⟩ := t.resolveAll_eq (d := d) (p := p) loads [] m₁
      have targets_eq : t.targets d m' p [] loads = t.targets d m p [] loads := by
        rw [targets, targets, funext (learns₁.trans learns).target]
      -- to follow the requests of a script leaves the requests themselves as they were read
      refine ⟨m', ?_, learns₁.trans learns, ?_⟩
      · show ((.ok (t.resolveAll d p [] loads m₁).1, (t.resolveAll d p [] loads m₁).2) : Attempted (List Path) × _) = _
        rw [e', targets, funext learns₁.target]
        rfl
      · rintro _ ⟨⟩
        rw [← targets_eq]
        exact .script hp ((hm p).trans ((hl loads).1 e)) (fun r hr' => by rw [hr r hr']; rfl) d
  · rename_i hp
    refine ⟨m, rfl, .refl m, ?_⟩
    rintro _ ⟨⟩
    exact .plain hp

/-- Of the file itself no other requests are remembered than those that were or have been read. -/
theorem loadsOf_of_dependencies {loads : List Script.Load} (h : (t.dependencies d p m).2.requests? p = some loads) :
    loadsOf d m p = .ok loads := by
  unfold dependencies at h
  split at h
  · obtain ⟨m₁, e₁, -, hl⟩ := importsFor_eq (t := t) (d := d) (p := p) (m := m)
    rw [Action.bind_apply, e₁] at h
    rcases e : loadsOf d m p with f | loads'
    · rw [e] at h
      rw [← (hl loads).2 h, e]
    · obtain ⟨m', e', -, hm, -⟩ := t.resolveAll_eq (d := d) (p := p) loads' [] m₁
      rw [e] at h
      have k : (t.resolveAll d p [] loads' m₁).2.requests? p = some loads := h
      rw [e', hm] at k
      rw [← (hl loads).2 k, e]
  · have k : m.requests? p = some loads := h
    rw [loadsOf, k]

private theorem mem_add {found : List Path} {x : Option Path} (h : q ∈ add found x) : q ∈ found ∨ x = some q := by
  unfold add at h
  split at h
  · exact .inl h
  · rename_i y
    split at h
    · exact .inl h
    · exact (List.mem_append.1 h).imp_right fun k => congrArg some (List.mem_singleton.1 k).symm

private theorem mem_targets {loads : List Script.Load} {found : List Path} (h : q ∈ t.targets d m p found loads) :
    q ∈ found ∨ ∃ r, t.target d m p r = some q := by
  unfold targets at h
  generalize t.followed loads = requests at h
  induction requests generalizing found with
  | nil => exact .inl h
  | cons r requests ih =>
    rw [List.foldl_cons] at h
    rcases ih h with h | h
    · exact (mem_add h).imp_right fun k => ⟨r, k⟩
    · exact .inr h

/-- A file asks for files to which requests lead. -/
theorem exists_target_of_needs {ps : List Path} (h : t.needs d m p = .ok ps) (hq : q ∈ ps) :
    ∃ r, t.target d m p r = some q := by
  unfold needs at h
  split at h
  · rcases e : loadsOf d m p with f | loads
    · rw [e] at h
      cases h
    · rw [e] at h
      cases h
      exact (mem_targets hq).resolve_left List.not_mem_nil
  · cases h
    cases hq

/-- These are files that requests were found to lead to, or others of the disk. -/
theorem mem_of_needs {ps : List Path} (h : t.needs d m p = .ok ps) (hq : q ∈ ps) : q ∈ m.found ∨ q ∈ d.paths := by
  obtain ⟨r, hr⟩ := exists_target_of_needs h hq
  unfold target at hr
  cases hm : m.resolutions.get? p r with
  | none =>
    rw [hm] at hr
    exact .inr (Resolver.find_mem_paths hr)
  | some found =>
    rw [hm, Option.getD_some] at hr
    exact .inl (ImportMemory.mem_found (hr ▸ hm))

/-! ### Answers given from memory -/

private theorem resolveAll_of_remembered {loads : List Script.Load}
    (h : ∀ r ∈ t.followed loads, (m.resolutions.get? p r).isSome = true) (found : List Path) :
    t.resolveAll d p found loads m = (t.targets d m p found loads, m) := by
  induction loads generalizing found with
  | nil => rfl
  | cons load loads ih =>
    by_cases hl : load.kind = .lazy ∧ ¬ t.followsLazy
    · rw [followed_cons_of_lazy hl] at h
      rw [resolveAll_lazy hl, ih h, targets, targets, followed_cons_of_lazy hl]
    · rw [followed_cons hl, List.forall_mem_cons] at h
      obtain ⟨found', e⟩ := Option.isSome_iff_exists.1 h.1
      have target_eq : t.target d m p load.request = found' := by rw [target, e, Option.getD_some]
      rw [resolveAll_followed hl (resolve_of_remembered e), ih h.2, targets, targets, followed_cons hl, List.foldl_cons,
        target_eq]

/-- Where requests lead that are remembered does not depend on the disk. -/
private theorem targets_of_remembered {loads : List Script.Load} {d' : Disk}
    (h : ∀ r ∈ t.followed loads, (m.resolutions.get? p r).isSome = true)
    (k : ∀ r found, m.resolutions.get? p r = some found → m'.resolutions.get? q r = some found) (found : List Path) :
    t.targets d m p found loads = t.targets d' m' q found loads := by
  refine List.foldl_ext _ _ _ fun found r hr => ?_
  obtain ⟨x, e⟩ := Option.isSome_iff_exists.1 (h r hr)
  rw [target, target, e, k r x e, Option.getD_some, Option.getD_some]

namespace Remembers

variable {ps : List Path}

/-- An answer stays remembered as long as nothing is lost. -/
theorem mono (h : t.Remembers m p ps) (k : m.Within m') : t.Remembers m' p ps := by
  cases h with
  | script hp hl hr d =>
    rw [targets_of_remembered hr fun r found => k.resolutions]
    refine .script hp (k.requests hl) (fun r hr' => ?_) d
    obtain ⟨x, e⟩ := Option.isSome_iff_exists.1 (hr r hr')
    exact Option.isSome_iff_exists.2 ⟨x, k.resolutions e⟩
  | plain hp => exact .plain hp

/-- It is remembered however the file is spelled. -/
theorem congr (h : t.Remembers m p ps) (k : (p == q) = true) : t.Remembers m q ps := by
  cases h with
  | script hp hl hr d =>
    rw [targets_of_remembered hr fun r found e => Resolutions.get?_congr k ▸ e]
    refine .script (Path.isScript_congr k ▸ hp) (ImportMemory.requests?_congr k ▸ hl) (fun r hr' => ?_) d
    exact Resolutions.get?_congr k ▸ hr r hr'
  | plain hp => exact .plain (Path.isScript_congr k ▸ hp)

/-- What is remembered is answered, whatever the disk. -/
theorem gives (h : t.Remembers m p ps) (d : Disk) : (t.dependencies d p).Gives m ps m := by
  unfold dependencies
  cases h with
  | script hp hl hr d' =>
    rename_i loads
    rw [if_pos hp, Action.gives_bind]
    refine ⟨loads, m, importsFor_of_remembered hl, ?_⟩
    show ((.ok (t.resolveAll d p [] loads m).1, (t.resolveAll d p [] loads m).2) : Attempted (List Path) × _) = _
    rw [resolveAll_of_remembered hr, targets_of_remembered hr fun _ _ => id]
  | plain hp =>
    rw [if_neg hp]
    exact Action.gives_pure.2 ⟨rfl, rfl⟩

theorem needs (h : t.Remembers m p ps) (d : Disk) : t.needs d m p = .ok ps := by
  obtain ⟨m', e, -, -⟩ := t.dependencies_eq d p m
  have k : @Eq (Attempted (List Path) × ImportMemory) (t.needs d m p, m') (.ok ps, m) := e.symm.trans (h.gives d)
  exact (Prod.mk.inj k).1

end Remembers

end ImportTracer

end ScriptBundler
