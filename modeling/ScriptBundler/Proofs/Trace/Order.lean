import ScriptBundler.Proofs.Trace.Listing

/-!
# Which failure ends a trace

A new tracer that is called for several paths walks from each of them anew, and what earlier paths have led to is
answered from memory. All the same, the call does what a single search does: files are asked in depth-first
pre-order, each once (`Preorder`), and the first of them that cannot be read or parsed ends the call
(`trace_failure_iff`). Requests that lead nowhere and cycles have no part in that, and files that are no scripts have
no faults.

A file is remembered however it is spelled, and read as it is spelled first. So where a file is reached in two
spellings, a fault of the second one is not found (`trace_two_spellings`).
-/

namespace ScriptBundler.ImportTracer

variable {t : ImportTracer} {d : Disk} {m m' m₁ : ImportMemory} {w w' : Walk} {p q : Path}
  {ps deps stack rest seen order files : List Path} {f : Failure}

/-! ### What a new tracer is told -/

/-- The files that a file asks for, or why that cannot be told. -/
def asks (t : ImportTracer) (d : Disk) (p : Path) : Attempted (List Path) := (t.dependencies d p {}).1

theorem asks_eq (t : ImportTracer) (d : Disk) (p : Path) : t.asks d p = t.needs d {} p := by
  obtain ⟨m', e, -, -⟩ := t.dependencies_eq d p {}
  rw [asks, e]

/-- The files to which some paths lead, by way of files that can be read and parsed. -/
inductive Reached (t : ImportTracer) (d : Disk) (ps : List Path) : Path → Prop where
  | given {p : Path} (h : p ∈ ps) : Reached t d ps p
  | asked {p x : Path} {deps : List Path} (k : Reached t d ps p) (h : t.asks d p = .ok deps) (hx : x ∈ deps) :
    Reached t d ps x

/-- A set of files that ask for each other only holds all that its members lead to. -/
theorem Reached.mem_closed {names : List String} (hps : ∀ p ∈ ps, p.text ∈ names)
    (closed : ∀ name ∈ names, ∀ x ∈ (t.asks d ⟨name⟩).toOption.getD [], x.text ∈ names) (h : t.Reached d ps p) :
    p.text ∈ names := by
  induction h with
  | given hp => exact hps _ hp
  | asked _ e hx ih => exact closed _ ih _ (by rwa [e])

/-- A script cannot be read, or what is read is no script. -/
inductive Fault (d : Disk) (p : Path) : Failure → Prop where
  | unreadable {e : DiskError} (hp : p.isScript = true) (h : d.readText p = .error e) :
    Fault d p ⟨[.readFile p], .disk e⟩
  | unparsed {text : String} (hp : p.isScript = true) (h : d.readText p = .ok text)
    (k : Script.loads? p.dialect text = none) : Fault d p ⟨[], .script p⟩

/-- A script is read and parsed, and what it requests is looked for. Only the first two can fail. -/
private theorem asks_of_script (hp : p.isScript = true) : t.asks d p = (match d.readText p with
    | .error e => .error ⟨[.readFile p], .disk e⟩
    | .ok text => match Script.loads? p.dialect text with
      | none => .error ⟨[], .script p⟩
      | some loads => .ok (t.targets d {} p [] loads)) := by
  rw [asks_eq, needs, if_pos hp]
  show ((Attempted.of .disk (d.readText p)).during (.readFile p) >>= requestsOf p).map _ = _
  rcases d.readText p with e | text
  · rfl
  · show (requestsOf p text).map _ = _
    delta requestsOf
    dsimp only
    rcases Script.loads? p.dialect text with _ | loads <;> rfl

theorem asks_eq_error_iff : t.asks d p = .error f ↔ Fault d p f := by
  constructor
  · intro h
    by_cases hp : p.isScript = true
    · rw [asks_of_script hp] at h
      rcases read : d.readText p with e | text
      · rw [read] at h
        cases h
        exact .unreadable hp read
      · rcases parsed : Script.loads? p.dialect text with _ | loads
        · simp only [read, parsed] at h
          cases h
          exact .unparsed hp read parsed
        · simp only [read, parsed] at h
          cases h
    · rw [asks_eq, needs, if_neg hp] at h
      cases h
  · rintro (⟨hp, read⟩ | ⟨hp, read, parsed⟩)
    · rw [asks_of_script hp, read]
    · simp only [asks_of_script hp, read, parsed]

/-- Why a file cannot be asked, if it cannot. -/
def fault? (t : ImportTracer) (d : Disk) (p : Path) : Option Failure :=
  match t.asks d p with
  | .ok _ => none
  | .error f => some f

theorem fault?_eq_some : t.fault? d p = some f ↔ Fault d p f := by
  rw [← asks_eq_error_iff (t := t), fault?]
  rcases t.asks d p with f | deps <;> simp

private theorem fault?_eq_none : t.fault? d p = none ↔ ∃ deps, t.asks d p = .ok deps := by
  rw [fault?]
  rcases t.asks d p with f | deps <;> simp

/-! ### The order in which files are asked -/

/-- Depth-first pre-order: a file comes before those it asks for, these come before the files that were to be visited
besides it, and a file that has been seen does not come again. -/
inductive Preorder (t : ImportTracer) (d : Disk) : (seen stack order : List Path) → Prop where
  | none {seen : List Path} : Preorder t d seen [] []
  | again {p : Path} {seen stack order : List Path} (h : seen.any (· == p) = true)
    (k : Preorder t d seen stack order) : Preorder t d seen (p :: stack) order
  | enter {p : Path} {seen stack order : List Path} (h : ¬ seen.any (· == p) = true)
    (k : Preorder t d (p :: seen) ((t.asks d p).toOption.getD [] ++ stack) order) :
    Preorder t d seen (p :: stack) (p :: order)

private theorem mem_paths_of_asks {x : Path} (hx : x ∈ (t.asks d p).toOption.getD []) : x ∈ d.paths := by
  rcases e : t.asks d p with f | deps
  · rw [e] at hx
    cases hx
  · rw [e] at hx
    rw [asks_eq] at e
    exact (mem_of_needs e hx).resolve_left List.not_mem_nil

/-- Files are entered as long as there are any that have not been seen. -/
private theorem exists_preorder_of_unseen (hd : ∀ q ∈ d.paths, q ∈ files) (n : Nat) (seen stack : List Path)
    (hs : ∀ p ∈ stack, p ∈ files) (hn : unseen files { opened := seen } < n) :
    ∃ order, t.Preorder d seen stack order := by
  induction n generalizing seen stack with
  | zero => omega
  | succ n ih =>
    induction stack with
    | nil => exact ⟨[], .none⟩
    | cons p stack ih_stack =>
      rw [List.forall_mem_cons] at hs
      by_cases h : seen.any (· == p) = true
      · obtain ⟨order, k⟩ := ih_stack hs.2
        exact ⟨order, .again h k⟩
      · have hlt : unseen files { opened := p :: seen } < unseen files { opened := seen } :=
          unseen_enter_lt hs.1 (w := { opened := seen }) (by simpa [Walk.sees] using h)
        obtain ⟨order, k⟩ := ih (p :: seen) _ (List.forall_mem_append.2 ⟨fun x hx => hd x (mem_paths_of_asks hx), hs.2⟩)
          (by omega)
        exact ⟨p :: order, .enter h k⟩

theorem exists_preorder (t : ImportTracer) (d : Disk) (ps : List Path) : ∃ order, t.Preorder d [] ps order := by
  have there : ∀ q ∈ d.paths, q ∈ ps ++ d.paths := fun _ => List.mem_append_right _
  exact exists_preorder_of_unseen there _ [] ps (fun _ => List.mem_append_left _) (Nat.lt_succ_self _)

namespace Preorder

theorem reached (h : t.Preorder d seen stack order) (hs : ∀ p ∈ stack, t.Reached d ps p) :
    ∀ q ∈ order, t.Reached d ps q := by
  induction h with
  | none => nofun
  | again _ _ ih => exact ih fun x hx => hs x (List.mem_cons_of_mem _ hx)
  | enter _ _ ih =>
    rw [List.forall_mem_cons] at hs ⊢
    refine ⟨hs.1, ih (List.forall_mem_append.2 ⟨fun x hx => ?_, hs.2⟩)⟩
    rename_i p _ _ _ _ _
    rcases e : t.asks d p with f | deps
    · rw [e] at hx
      cases hx
    · rw [e] at hx
      exact .asked hs.1 e hx

/-- All that is to be visited has been seen or comes, and so does all that the files ask for that come. -/
private theorem covers (h : t.Preorder d seen stack order) : (∀ p ∈ stack, (seen ++ order).any (· == p) = true) ∧
    ∀ q ∈ order, ∀ x ∈ (t.asks d q).toOption.getD [], (seen ++ order).any (· == x) = true := by
  induction h with
  | none => exact ⟨nofun, nofun⟩
  | again hp _ ih =>
    rw [List.forall_mem_cons, List.any_append, hp, Bool.true_or]
    exact ⟨⟨rfl, ih.1⟩, ih.2⟩
  | enter _ _ ih =>
    rename_i p seen stack order _ _
    -- what has been entered counts as seen from then on
    have moved : ∀ x, (seen ++ p :: order).any (· == x) = (p :: seen ++ order).any (· == x) := fun x => by
      simp only [List.any_append, List.any_cons, Bool.or_left_comm, Bool.or_assoc]
    simp only [moved, List.forall_mem_cons]
    obtain ⟨visited, asked⟩ := ih
    rw [List.forall_mem_append] at visited
    exact ⟨⟨by simp, visited.2⟩, visited.1, asked⟩

/-- Where no file is reached in two spellings, all that are reached come. -/
private theorem mem_of_reached (h : t.Preorder d [] ps order)
    (spelled : ∀ p q, t.Reached d ps p → t.Reached d ps q → (p == q) = true → p = q) (k : t.Reached d ps p) :
    p ∈ order := by
  have comes : ∀ x, t.Reached d ps x → order.any (· == x) = true → x ∈ order := by
    intro x hx hc
    obtain ⟨q, hq, e⟩ := List.any_eq_true.1 hc
    rw [← spelled q x (h.reached (fun _ => .given) q hq) hx e]
    exact hq
  induction k with
  | given hp => exact comes _ (.given hp) (h.covers.1 _ hp)
  | asked k e hx ih => exact comes _ (.asked k e hx) (h.covers.2 _ ih _ (by rwa [e]))

end Preorder

/-! ### Visits in this order -/

/-- What has been asked during a call: in earlier traces the files with the property `A`, which are remembered with all
that they lead to, and in the trace that is being made those that it sees. Others are answered for as to begin with. -/
structure Known (t : ImportTracer) (d : Disk) (A : Path → Prop) (seen : List Path) (w : Walk) (m : ImportMemory) :
    Prop where
  seen_iff : ∀ q, seen.any (· == q) = true ↔ A q ∨ w.sees q = true
  settled : ∀ q, A q → ∃ deps, t.Remembers m q deps ∧ ∀ x ∈ deps, A x
  fresh : ∀ q, ¬ seen.any (· == q) = true → t.needs d m q = t.asks d q

namespace Known

variable {A : Path → Prop}

/-- A file that earlier traces have led to is entered once more, and asks for other such files. -/
private theorem enter_settled (h : t.Known d A seen w m) (hp : A p) (e : (t.dependencies d p).Gives m deps m₁) :
    t.Known d A seen (w.enter p) m₁ ∧ ∀ x ∈ deps, A x := by
  obtain ⟨deps', remembered, closed⟩ := h.settled p hp
  obtain ⟨rfl, rfl⟩ := e.unique (remembered.gives d)
  refine ⟨⟨fun q => ?_, h.settled, h.fresh⟩, closed⟩
  rw [Walk.sees_enter, h.seen_iff, ← or_assoc]
  refine ⟨.inl, fun k => k.elim id fun same => (h.seen_iff q).1 ?_⟩
  have hp : seen.any (· == p) = true := (h.seen_iff p).2 (.inl hp)
  simpa only [BEq.congr_right same] using hp

/-- Any other file is asked for the first time. -/
private theorem enter_fresh (h : t.Known d A seen w m) (hp : ¬ seen.any (· == p) = true)
    (e : (t.dependencies d p).Gives m deps m₁) : t.Known d A (p :: seen) (w.enter p) m₁ ∧ t.asks d p = .ok deps := by
  obtain ⟨needs_eq, learns, -⟩ := learns_of_gives e
  refine ⟨⟨fun q => ?_, fun q hq => ?_, fun q hq => ?_⟩, (h.fresh p hp).symm.trans needs_eq⟩
  · rw [List.any_cons, Bool.or_eq_true, h.seen_iff, Walk.sees_enter, or_comm, or_assoc]
  · obtain ⟨deps', remembered, closed⟩ := h.settled q hq
    exact ⟨deps', remembered.mono learns.within, closed⟩
  · rw [List.any_cons, Bool.or_eq_true, not_or] at hq
    rw [learns.needs hq.1, h.fresh q hq.2]

private theorem leave (h : t.Known d A seen w m) (hp : w.sees p = true) : t.Known d A seen (w.leave p deps) m where
  seen_iff q := by rw [h.seen_iff, Walk.sees_leave hp]
  settled := h.settled
  fresh := h.fresh

/-- What a trace has listed is remembered with all that it leads to. -/
private theorem settle (h : t.Known d A seen w m) (k : t.Visits d [p] {} m₁ w m) :
    t.Known d (fun q => seen.any (· == q) = true) seen {} m where
  seen_iff q := by simp [Walk.sees]
  settled q hq := by
    rcases (h.seen_iff q).1 hq with hq | hq
    · obtain ⟨deps, remembered, closed⟩ := h.settled q hq
      exact ⟨deps, remembered, fun x hx => (h.seen_iff x).2 (.inl (closed x hx))⟩
    · obtain ⟨new, l⟩ := k.exists_lists
      obtain rfl : w.files = new := l.files
      obtain ⟨f, hf, e⟩ := ((l.seen q).1 hq).resolve_left (by simp [Walk.sees])
      refine ⟨f.dependencies, (l.remembers f hf).congr e, fun x hx => (h.seen_iff x).2 (.inr ?_)⟩
      exact (l.seen x).2 (.inr (k.closed f hf x hx))
  fresh := h.fresh

end Known

variable {A : Path → Prop}

/-- What has been seen is passed over. -/
private theorem Preorder.again_all (hs : ∀ p ∈ deps, seen.any (· == p) = true) (h : t.Preorder d seen stack order) :
    t.Preorder d seen (deps ++ stack) order := by
  induction deps with
  | nil => exact h
  | cons p deps ih =>
    rw [List.forall_mem_cons] at hs
    exact .again hs.1 (ih hs.2)

private theorem Preorder.of_again (hp : seen.any (· == p) = true) (h : t.Preorder d seen (p :: stack) order) :
    t.Preorder d seen stack order := by
  cases h with
  | again _ k => exact k
  | enter unseen _ => exact absurd hp unseen

/-- A file that is asked for the first time comes next. -/
private theorem Preorder.of_enter (hp : ¬ seen.any (· == p) = true) (h : t.Preorder d seen (p :: stack) order) :
    ∃ order', t.Preorder d (p :: seen) ((t.asks d p).toOption.getD [] ++ stack) order' ∧ order = p :: order' := by
  cases h with
  | again seen _ => exact absurd seen hp
  | enter _ k => exact ⟨_, k, rfl⟩

/-- The order goes on with what a file asks for that is entered, whether that is for the first time or not. -/
private theorem Known.enter (h : t.Known d A seen w m) (unseen : ¬ w.sees p = true)
    (e : (t.dependencies d p).Gives m deps m₁)
    (k : t.Preorder d seen (p :: stack) order) : ∃ seen₁ order₁, t.Known d A seen₁ (w.enter p) m₁ ∧
      t.Preorder d seen₁ (deps ++ stack) order₁ ∧ order.findSome? (t.fault? d) = order₁.findSome? (t.fault? d) := by
  by_cases hp : seen.any (· == p) = true
  · have settled : A p := ((h.seen_iff p).1 hp).resolve_right unseen
    obtain ⟨known, closed⟩ := h.enter_settled settled e
    exact ⟨seen, order, known, (k.of_again hp).again_all fun x hx => (h.seen_iff x).2 (.inl (closed x hx)), rfl⟩
  · obtain ⟨known, asked⟩ := h.enter_fresh hp e
    obtain ⟨order₁, k₁, rfl⟩ := k.of_enter hp
    rw [asked] at k₁
    refine ⟨p :: seen, order₁, known, k₁, ?_⟩
    rw [List.findSome?_cons, fault?_eq_none.2 ⟨deps, asked⟩]

/-- A visit goes on in the order, up to where its files have been visited, and meets no faults there. -/
private theorem Visits.preorder (h : t.Visits d ps w m w' m') (known : t.Known d A seen w m)
    (k : t.Preorder d seen (ps ++ rest) order) : ∃ seen' order', t.Known d A seen' w' m' ∧
      t.Preorder d seen' rest order' ∧ order.findSome? (t.fault? d) = order'.findSome? (t.fault? d) := by
  induction h generalizing seen rest order with
  | none => exact ⟨seen, order, known, k, rfl⟩
  | again hp _ ih => exact ih known (k.of_again ((known.seen_iff _).2 (.inr hp)))
  | listed unseen e inner _ ih₁ ih₂ =>
    obtain ⟨seen₁, order₁, known₁, k₁, same₁⟩ := known.enter unseen e k
    obtain ⟨seen₂, order₂, known₂, k₂, same₂⟩ := ih₁ known₁ k₁
    obtain ⟨seen', order', known', k', same'⟩ := ih₂ (known₂.leave inner.sees_entered) k₂
    exact ⟨seen', order', known', k', same₁.trans (same₂.trans same')⟩

/-- A visit that fails does so with the first fault in the order. -/
private theorem Fails.preorder (h : t.Fails d ps w m f m') (known : t.Known d A seen w m)
    (k : t.Preorder d seen (ps ++ rest) order) : order.findSome? (t.fault? d) = some f := by
  induction h generalizing seen rest order with
  | again hp _ ih => exact ih known (k.of_again ((known.seen_iff _).2 (.inr hp)))
  | listed unseen e inner _ ih =>
    obtain ⟨seen₁, order₁, known₁, k₁, same₁⟩ := known.enter unseen e k
    obtain ⟨seen₂, order₂, known₂, k₂, same₂⟩ := inner.preorder known₁ k₁
    rw [same₁, same₂]
    exact ih (known₂.leave inner.sees_entered) k₂
  | entered unseen e _ ih =>
    obtain ⟨seen₁, order₁, known₁, k₁, same₁⟩ := known.enter unseen e k
    rw [same₁]
    exact ih known₁ k₁
  | refused unseen e =>
    rename_i p ps w m m' f
    by_cases hp : seen.any (· == p) = true
    · -- what earlier traces have led to is remembered
      obtain ⟨deps, remembered, -⟩ := known.settled p (((known.seen_iff p).1 hp).resolve_right unseen)
      exact absurd e (remembered.gives d).not_refuses
    · obtain ⟨order', -, rfl⟩ := k.of_enter hp
      obtain ⟨m₁, eq, -, -⟩ := t.dependencies_eq d p m
      have refused : @Eq (Attempted (List Path) × ImportMemory) (t.needs d m p, m₁) (.error f, m') := eq.symm.trans e
      have asked : t.asks d p = .error f := (known.fresh p hp).symm.trans (Prod.mk.inj refused).1
      rw [List.findSome?_cons, fault?_eq_some.2 (asks_eq_error_iff.1 asked)]

/-- Traces one after the other fail with the first fault in the order, if there is one. -/
private theorem mapM_traceOne_preorder (known : t.Known d A seen {} m) (k : t.Preorder d seen ps order) :
    (ps.mapM (t.traceOne d) m).1 = .error f ↔ order.findSome? (t.fault? d) = some f := by
  induction ps generalizing A seen m order with
  | nil =>
    cases k
    rw [List.mapM_nil]
    exact ⟨nofun, nofun⟩
  | cons p ps ih =>
    rw [List.mapM_cons, Action.bind_apply]
    have k : t.Preorder d seen ([p] ++ ps) order := k
    obtain ⟨⟨f' | w, m'⟩, ends, e⟩ := t.traceOne_ends d p m
    · rw [e, Fails.preorder ends known k]
      show (.error f' : Attempted (List (List TracedFile))) = .error f ↔ _
      rw [Except.error.injEq, Option.some_inj]
    · obtain ⟨seen', order', known', k', same⟩ := Visits.preorder ends known k
      rw [e, same, ← ih (known'.settle ends) k']
      show ((ps.mapM (t.traceOne d) >>= fun found => pure (w.files :: found)) m').1 = .error f ↔ _
      rw [Action.bind_apply]
      rcases ps.mapM (t.traceOne d) m' with ⟨f' | found, m''⟩
      · rfl
      · exact ⟨nofun, nofun⟩

private theorem known_empty (t : ImportTracer) (d : Disk) : t.Known d (fun _ => False) [] {} {} where
  seen_iff q := by simp [Walk.sees]
  settled _ := nofun
  fresh q _ := (t.asks_eq d q).symm

theorem trace_preorder (k : t.Preorder d [] ps order) :
    (t.trace d ps {}).1 = .error f ↔ order.findSome? (t.fault? d) = some f := by
  rw [← mapM_traceOne_preorder (t.known_empty d) k]
  show ((ps.mapM (t.traceOne d) >>= fun found => pure found.flatten) {}).1 = .error f ↔ _
  rw [Action.bind_apply]
  rcases ps.mapM (t.traceOne d) {} with ⟨f' | found, m'⟩
  · exact ⟨fun e => by cases e; rfl, fun e => by cases e; rfl⟩
  · exact ⟨nofun, nofun⟩

/-- A call of a new tracer asks for files in depth-first pre-order, and fails with the fault of the first one that has
one. If no file is reached in two spellings, it fails exactly if a script with a fault is reached. -/
theorem trace_failure_iff (t : ImportTracer) (d : Disk) (ps : List Path) : ∃ order, t.Preorder d [] ps order ∧
    (∀ q ∈ order, t.Reached d ps q) ∧
    (∀ f, (t.trace d ps {}).1 = .error f ↔
      ∃ front p rest, order = front ++ p :: rest ∧ Fault d p f ∧ ∀ q ∈ front, ∀ g, ¬ Fault d q g) ∧
    ((∀ p q, t.Reached d ps p → t.Reached d ps q → (p == q) = true → p = q) →
      ((t.trace d ps {}).1.isOk = false ↔ ∃ p f, t.Reached d ps p ∧ Fault d p f)) := by
  obtain ⟨order, k⟩ := t.exists_preorder d ps
  have none_iff : ∀ q, t.fault? d q = none ↔ ∀ g, ¬ Fault d q g := fun q => by
    rw [Option.eq_none_iff_forall_ne_some]
    exact forall_congr' fun g => not_congr fault?_eq_some
  have first : ∀ f, (t.trace d ps {}).1 = .error f ↔
      ∃ front p rest, order = front ++ p :: rest ∧ Fault d p f ∧ ∀ q ∈ front, ∀ g, ¬ Fault d q g := fun f => by
    simp only [trace_preorder k, List.findSome?_eq_some_iff, fault?_eq_some, none_iff]
  refine ⟨order, k, k.reached fun _ => .given, first, fun spelled => ?_⟩
  constructor
  · intro failed
    rcases e : (t.trace d ps {}).1 with f | files
    · obtain ⟨front, p, rest, order_eq, fault, -⟩ := (first f).1 e
      exact ⟨p, f, k.reached (fun _ => .given) p (by simp [order_eq]), fault⟩
    · rw [e] at failed
      cases failed
  · rintro ⟨p, f, reached, fault⟩
    -- there is a fault in the order, and so there is a first one
    have faulty : (order.findSome? (t.fault? d)).isSome = true :=
      List.findSome?_isSome_iff.2 ⟨p, k.mem_of_reached spelled reached, by rw [fault?_eq_some.2 fault]; rfl⟩
    obtain ⟨f', e⟩ := Option.isSome_iff_exists.1 faulty
    rw [(trace_preorder k).2 e]
    rfl

/-- Two scripts that ask for each other, for a file that is not there, for one that is no script, and for a script with
an error. -/
def knotted : Disk := .ofScripts [("a.js", "import './b.js'; import './gone.js'; import './data.json'"),
  ("b.js", "import './a.js'; import './x.js'"), ("data.json", "["), ("x.js", ")")]

/-- Only the script with the error makes the trace fail. -/
theorem trace_failure_iff_knotted : (∀ p q, unaliased.Reached knotted [⟨"/a.js"⟩] p →
      unaliased.Reached knotted [⟨"/a.js"⟩] q → (p == q) = true → p = q) ∧
    Fault knotted ⟨"/x.js"⟩ ⟨[], .script ⟨"/x.js"⟩⟩ ∧ (unaliased.trace knotted [⟨"/a.js"⟩] {}).1.isOk = false ∧
    ∃ p f, unaliased.Reached knotted [⟨"/a.js"⟩] p ∧ Fault knotted p f := by
  have reached : ∀ p, unaliased.Reached knotted [⟨"/a.js"⟩] p → p.text ∈ ["/a.js", "/b.js", "/data.json", "/x.js"] :=
    fun p k => k.mem_closed (by decide) (by decide +kernel)
  have spelled : ∀ p q, unaliased.Reached knotted [⟨"/a.js"⟩] p → unaliased.Reached knotted [⟨"/a.js"⟩] q →
      (p == q) = true → p = q := by
    have apart : ∀ a ∈ ["/a.js", "/b.js", "/data.json", "/x.js"], ∀ b ∈ ["/a.js", "/b.js", "/data.json", "/x.js"],
        ((⟨a⟩ : Path) == ⟨b⟩) = true → a = b := by decide +kernel
    exact fun p q hp hq e => congrArg Path.mk (apart p.text (reached p hp) q.text (reached q hq) e)
  obtain ⟨-, -, -, -, fails_iff⟩ := trace_failure_iff unaliased knotted [⟨"/a.js"⟩]
  have failed : (unaliased.trace knotted [⟨"/a.js"⟩] {}).1.isOk = false := by decide +kernel
  have read : knotted.readText ⟨"/x.js"⟩ = .ok ")" := by decide +kernel
  exact ⟨spelled, .unparsed (by decide +kernel) read (by decide +kernel), failed, (fails_iff spelled).1 failed⟩

/-- A script, and the same with a slash behind its name. -/
def spellings : List Path := [⟨"/a.js"⟩, ⟨"/a.js/"⟩]

/-- A file that cannot be read as it is spelled is not asked for if it has been read in another spelling. -/
theorem trace_two_spellings : ¬ ((unaliased.trace (.ofScripts [("a.js", "")]) spellings {}).1.isOk = false ↔
    ∃ p f, unaliased.Reached (.ofScripts [("a.js", "")]) spellings p ∧ Fault (.ofScripts [("a.js", "")]) p f) := by
  have given : unaliased.Reached (.ofScripts [("a.js", "")]) spellings ⟨"/a.js/"⟩ := .given (by simp [spellings])
  have fault : Fault (.ofScripts [("a.js", "")]) ⟨"/a.js/"⟩ ⟨[.readFile ⟨"/a.js/"⟩], .disk .notADirectory⟩ :=
    .unreadable (by decide +kernel) (by decide +kernel)
  have traced : (unaliased.trace (.ofScripts [("a.js", "")]) spellings {}).1.isOk = true := by decide +kernel
  intro h
  rw [h.2 ⟨_, _, given, fault⟩] at traced
  cases traced

end ScriptBundler.ImportTracer
