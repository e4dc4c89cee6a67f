import Mathlib.Data.List.Forall2
import ScriptBundler.Failure

/-!
# Actions that answer

An action gives `a` if it answers `a` when it is begun in a world. An action put together from others gives an
answer exactly if each of them does (`gives_bind`, `gives_map`, `gives_during`); a list of answers comes from one
action to each element (`gives_mapM`).

An action follows another one if it gives the same answers (`Follows`), as long as one is begun in certain worlds and
the other ends in certain worlds. Put together, actions follow if their parts do.

An action keeps a property of worlds if it ends in such a world whenever it is begun in one, and it yields a result if
it always has this result then (`Keeps`, `Yields`). It agrees on an answer if it has no other one then, though it may
fail (`Agrees`). It succeeds if it answers in every world, be it ever differently (`Succeeds`).
-/

namespace ScriptBundler.Action

variable {σ α β : Type}

/-- Begun in the world `w`, the action answers `a` and leaves the world `w'`. -/
def Gives (x : Action σ α) (w : σ) (a : α) (w' : σ) : Prop := @Eq (Attempted α × σ) (x w) (.ok a, w')

/-- Begun in the world `w`, the action fails and leaves the world `w'`. -/
def Refuses (x : Action σ α) (w : σ) (f : Failure) (w' : σ) : Prop := @Eq (Attempted α × σ) (x w) (.error f, w')

theorem Gives.unique {x : Action σ α} {w w₁ w₂ : σ} {a b : α} (h : x.Gives w a w₁) (k : x.Gives w b w₂) :
    a = b ∧ w₁ = w₂ := by
  have e : @Eq (Attempted α × σ) (.ok a, w₁) (.ok b, w₂) := h.symm.trans k
  simpa using e

theorem Gives.not_refuses {x : Action σ α} {w w₁ w₂ : σ} {a : α} {f : Failure} (h : x.Gives w a w₁) :
    ¬ x.Refuses w f w₂ := by
  intro k
  have e : @Eq (Attempted α × σ) (.ok a, w₁) (.error f, w₂) := h.symm.trans k
  cases e

theorem Refuses.unique {x : Action σ α} {w w₁ w₂ : σ} {f g : Failure} (h : x.Refuses w f w₁) (k : x.Refuses w g w₂) :
    f = g ∧ w₁ = w₂ := by
  have e : @Eq (Attempted α × σ) (.error f, w₁) (.error g, w₂) := h.symm.trans k
  simpa using e

theorem eq_ok_of_isOk {ε : Type} [Inhabited α] {r : Except ε α} (h : r.isOk = true) :
    r = .ok (r.toOption.getD default) := by
  cases r with
  | error => cases h
  | ok => rfl

theorem bind_eq_ok {ε : Type} {r : Except ε α} {g : α → Except ε β} {b : β} :
    (r >>= g) = .ok b ↔ ∃ a, r = .ok a ∧ g a = .ok b := by
  cases r with
  | error => simp [bind, Except.bind]
  | ok => simp [bind, Except.bind]

theorem map_eq_ok {ε : Type} {r : Except ε α} {g : α → β} {b : β} :
    r.map g = .ok b ↔ ∃ a, r = .ok a ∧ g a = b := by
  cases r with
  | error => simp [Except.map]
  | ok => simp [Except.map]

theorem isOk_iff {ε : Type} {r : Except ε α} : r.isOk = true ↔ ∃ a, r = .ok a := by
  cases r <;> simp [Except.isOk, Except.toBool]

theorem isOk_map {ε : Type} {r : Except ε α} {g : α → β} : (r.map g).isOk = r.isOk := by
  cases r <;> rfl

/-- Going through a list succeeds if it does at each element. -/
theorem isOk_mapM {ε : Type} {f : α → Except ε β} {xs : List α} :
    (xs.mapM f).isOk = true ↔ ∀ x ∈ xs, (f x).isOk = true := by
  induction xs with
  | nil => exact ⟨fun _ => nofun, fun _ => rfl⟩
  | cons x xs ih =>
    rw [List.mapM_cons, List.forall_mem_cons, ← ih]
    rcases f x with e | y
    · simp [bind, Except.bind, Except.isOk, Except.toBool]
    · rcases xs.mapM f with e | ys <;> simp [bind, Except.bind, pure, Except.pure, Except.isOk, Except.toBool]

/-- It fails as it does at some element. -/
theorem exists_of_mapM_error {ε : Type} {f : α → Except ε β} {xs : List α} {e : ε} (h : xs.mapM f = .error e) :
    ∃ x ∈ xs, f x = .error e := by
  induction xs with
  | nil => cases h
  | cons x xs ih =>
    rw [List.mapM_cons] at h
    rcases hx : f x with e' | y
    · rw [hx] at h
      cases h
      exact ⟨x, List.mem_cons_self, hx⟩
    · rcases hxs : xs.mapM f with e' | ys
      · rw [hx, hxs] at h
        cases h
        obtain ⟨z, hz, failed⟩ := ih hxs
        exact ⟨z, List.mem_cons_of_mem _ hz, failed⟩
      · rw [hx, hxs] at h
        cases h

/-- An action gives an answer if it does not fail. -/
theorem gives_from [Inhabited α] {x : Action σ α} (w : σ) (h : (x w).1.isOk = true) :
    x.Gives w ((x w).1.toOption.getD default) (x w).2 := Prod.ext (eq_ok_of_isOk h) rfl

/-- In a world without states nothing else is to be said. -/
theorem gives_of_isOk [Inhabited α] {x : Action Unit α} (h : (x ()).1.isOk = true) :
    x.Gives () ((x ()).1.toOption.getD default) () := gives_from () h

theorem gives_pure {w w' : σ} {a b : α} : Gives (pure a : Action σ α) w b w' ↔ a = b ∧ w = w' := by
  show ((Except.ok a, w) : Attempted α × σ) = (.ok b, w') ↔ _
  simp

/-- The second action is begun where the first one ends, unless that fails. -/
theorem bind_apply (x : Action σ α) (f : α → Action σ β) (w : σ) : (x >>= f) w = (match x w with
    | (.ok a, w₁) => f a w₁
    | (.error e, w₁) => ((.error e, w₁) : Attempted β × σ)) := by
  simp only [bind, ExceptT.bind, ExceptT.mk, StateT.bind]
  rcases x w with ⟨_ | a, w₁⟩ <;> rfl

theorem get_bind_apply (f : σ → Action σ β) (w : σ) : (get >>= f) w = f w w := rfl

theorem gives_bind {x : Action σ α} {f : α → Action σ β} {w w' : σ} {b : β} :
    Gives (x >>= f) w b w' ↔ ∃ a w₁, x.Gives w a w₁ ∧ (f a).Gives w₁ b w' := by
  unfold Gives
  rw [bind_apply]
  rcases x w with ⟨_ | a, w₁⟩ <;> simp

theorem gives_map {x : Action σ α} {f : α → β} {w w' : σ} {b : β} :
    Gives (f <$> x) w b w' ↔ ∃ a, x.Gives w a w' ∧ f a = b := by
  rw [map_eq_pure_bind, gives_bind]
  simp only [gives_pure]
  exact ⟨fun ⟨a, _, h, e, k⟩ => ⟨a, k ▸ h, e⟩, fun ⟨a, h, e⟩ => ⟨a, w', h, e, rfl⟩⟩

theorem gives_get {w w' a : σ} : Gives (get : Action σ σ) w a w' ↔ a = w ∧ w' = w := by
  show ((Except.ok w, w) : Attempted σ × σ) = (.ok a, w') ↔ _
  simp [eq_comm]

theorem gives_lift {r : Attempted α} {w w' : σ} {a : α} : Gives (lift r) w a w' ↔ r = .ok a ∧ w' = w := by
  show ((r, w) : Attempted α × σ) = (.ok a, w') ↔ _
  simp [eq_comm]

theorem not_gives_fail {cause : Cause} {w w' : σ} {a : α} : ¬ Gives (fail cause) w a w' := by
  show ¬ ((Except.error ⟨[], cause⟩, w) : Attempted α × σ) = (.ok a, w')
  simp

theorem gives_during {attempt : Attempt} {x : Action σ α} {w w' : σ} {a : α} :
    Gives (during attempt x) w a w' ↔ x.Gives w a w' := by
  show ((Attempted.during attempt (x w).1, (x w).2) : Attempted α × σ) = (.ok a, w') ↔ @Eq (Attempted α × σ) (x w) _
  rcases x w with ⟨_ | b, w₁⟩ <;> simp [Attempted.during]

theorem during_map {attempt : Attempt} {f : α → β} {x : Action σ α} :
    during attempt (f <$> x) = f <$> during attempt x := by
  funext w
  simp only [during, Functor.map, ExceptT.map, ExceptT.mk, bind, StateT.bind]
  rcases x w with ⟨_ | a, w₁⟩ <;> rfl

theorem gives_get_bind {f : σ → Action σ α} {w w' : σ} {a : α} : Gives (get >>= f) w a w' ↔ (f w).Gives w a w' :=
  Iff.rfl

theorem gives_set_bind {s w w' : σ} {f : PUnit → Action σ α} {a : α} :
    Gives (set s >>= f) w a w' ↔ (f ⟨⟩).Gives s a w' := Iff.rfl

theorem not_gives_fail_bind {attempt : Attempt} {cause : Cause} {f : β → Action σ α} {w w' : σ} {a : α} :
    ¬ Gives (during attempt (fail cause) >>= f) w a w' := by
  intro h
  obtain ⟨b, w₁, failed, -⟩ := gives_bind.1 h
  exact not_gives_fail (gives_during.1 failed)

theorem exists_of_forall₂ {R : α → β → Prop} {xs : List α} {ys : List β} (h : List.Forall₂ R xs ys) {x : α}
    (hx : x ∈ xs) : ∃ y ∈ ys, R x y := by
  induction h with
  | nil => cases hx
  | cons told _ ih =>
    rcases List.mem_cons.1 hx with rfl | hx
    · exact ⟨_, List.mem_cons_self, told⟩
    · obtain ⟨y, hy, told⟩ := ih hx
      exact ⟨y, List.mem_cons_of_mem _ hy, told⟩

/-- A property of worlds that each action keeps holds where the last one ends, and what each of them then tells of its
answer is so of all. -/
theorem gives_mapM_forth {I : σ → Prop} {R : α → β → Prop} {f : α → Action σ β} {xs : List α} {w w' : σ} {ys : List β}
    (forth : ∀ x ∈ xs, ∀ w y w', I w → (f x).Gives w y w' → I w' ∧ R x y) (h : Gives (xs.mapM f) w ys w') (hw : I w) :
    I w' ∧ List.Forall₂ R xs ys := by
  induction xs generalizing w ys with
  | nil =>
    rw [List.mapM_nil] at h
    obtain ⟨rfl, rfl⟩ := gives_pure.1 h
    exact ⟨hw, .nil⟩
  | cons x xs ih =>
    rw [List.forall_mem_cons] at forth
    rw [List.mapM_cons, gives_bind] at h
    obtain ⟨y, w₁, hx, h⟩ := h
    rw [gives_bind] at h
    obtain ⟨rest, w₂, hxs, h⟩ := h
    obtain ⟨rfl, rfl⟩ := gives_pure.1 h
    obtain ⟨hw₁, told⟩ := forth.1 w y w₁ hw hx
    obtain ⟨hw', each⟩ := ih forth.2 hxs hw₁
    exact ⟨hw', .cons told each⟩

/-- Each element of a list has its own answer, given in some world on the way. -/
theorem gives_mapM {f : α → Action σ β} {xs : List α} {w w' : σ} {ys : List β}
    (h : Gives (xs.mapM f) w ys w') : List.Forall₂ (fun x y => ∃ w₁ w₂, (f x).Gives w₁ y w₂) xs ys :=
  (gives_mapM_forth (I := fun _ => True) (fun _ _ w _ w' _ hx => ⟨trivial, w, w', hx⟩) h trivial).2

/-- A property of worlds that goes back along each action holds where each of them ends. -/
theorem gives_mapM_back {J : σ → Prop} {f : α → Action σ β} {xs : List α} {w w' : σ} {ys : List β}
    (back : ∀ x w y w', (f x).Gives w y w' → J w' → J w) (h : Gives (xs.mapM f) w ys w') (hw : J w') :
    J w ∧ List.Forall₂ (fun x y => ∃ w₁ w₂, (f x).Gives w₁ y w₂ ∧ J w₂) xs ys := by
  induction xs generalizing w ys with
  | nil =>
    rw [List.mapM_nil] at h
    obtain ⟨rfl, rfl⟩ := gives_pure.1 h
    exact ⟨hw, .nil⟩
  | cons x xs ih =>
    rw [List.mapM_cons, gives_bind] at h
    obtain ⟨y, w₁, hx, h⟩ := h
    rw [gives_bind] at h
    obtain ⟨rest, w₂, hxs, h⟩ := h
    obtain ⟨rfl, rfl⟩ := gives_pure.1 h
    obtain ⟨hw₁, each⟩ := ih hxs
    exact ⟨back _ _ _ _ hx hw₁, .cons ⟨w, w₁, hx, hw₁⟩ each⟩

/-! ### Actions that follow others -/

/-- What `x` answers when it ends in a world of `J`, `y` answers when it is begun in a world of `I`. One ends in a world
of `I` then, and the other was begun in a world of `J`. -/
structure Follows {τ : Type} (J : σ → Prop) (I : τ → Prop) (x : Action σ α) (y : Action τ α) : Prop where
  before : ∀ {w a w'}, x.Gives w a w' → J w' → J w
  again : ∀ {w a w' s}, x.Gives w a w' → J w' → I s → ∃ s', y.Gives s a s' ∧ I s'

namespace Follows

variable {τ : Type} {J : σ → Prop} {I : τ → Prop}

theorem pure (a : α) : Follows J I (Pure.pure a : Action σ α) (Pure.pure a : Action τ α) where
  before h hJ := (gives_pure.1 h).2 ▸ hJ
  again h _ hI := ⟨_, gives_pure.2 ⟨(gives_pure.1 h).1, rfl⟩, hI⟩

theorem bind {x : Action σ α} {y : Action τ α} {f : α → Action σ β} {g : α → Action τ β} (h : Follows J I x y)
    (k : ∀ a, Follows J I (f a) (g a)) : Follows J I (x >>= f) (y >>= g) where
  before e hJ := by
    obtain ⟨a, w₁, e₁, e₂⟩ := gives_bind.1 e
    exact h.before e₁ ((k a).before e₂ hJ)
  again e hJ hI := by
    obtain ⟨a, w₁, e₁, e₂⟩ := gives_bind.1 e
    obtain ⟨s₁, k₁, hI₁⟩ := h.again e₁ ((k a).before e₂ hJ) hI
    obtain ⟨s', k₂, hI'⟩ := (k a).again e₂ hJ hI₁
    exact ⟨s', gives_bind.2 ⟨a, s₁, k₁, k₂⟩, hI'⟩

theorem foldlM {f : β → α → Action σ β} {g : β → α → Action τ β} (h : ∀ b a, Follows J I (f b a) (g b a))
    (xs : List α) (b : β) : Follows J I (xs.foldlM f b) (xs.foldlM g b) := by
  induction xs generalizing b with
  | nil => exact .pure b
  | cons x xs ih =>
    rw [List.foldlM_cons, List.foldlM_cons]
    exact (h b x).bind ih

theorem mapM {f : α → Action σ β} {g : α → Action τ β} (h : ∀ a, Follows J I (f a) (g a)) (xs : List α) :
    Follows J I (xs.mapM f) (xs.mapM g) := by
  induction xs with
  | nil =>
    rw [List.mapM_nil, List.mapM_nil]
    exact .pure []
  | cons x xs ih =>
    rw [List.mapM_cons, List.mapM_cons]
    exact (h x).bind fun y => ih.bind fun ys => .pure (y :: ys)

end Follows

/-! ### What actions keep -/

section Keeps

variable {I : σ → Prop} {x : Action σ α} {f : α → Action σ β}

/-- Begun in a world of `I`, the action ends in one, failed or not. -/
def Keeps (I : σ → Prop) (x : Action σ α) : Prop := ∀ w, I w → I (x w).2

/-- Begun in a world of `I`, the action has the result `r` and ends in a world of `I`. -/
def Yields (I : σ → Prop) (x : Action σ α) (r : Attempted α) : Prop := ∀ w, I w → (x w).1 = r ∧ I (x w).2

namespace Keeps

theorem pure (a : α) : Keeps I (Pure.pure a : Action σ α) := fun _ hw => hw

theorem bind (h : Keeps I x) (k : ∀ a, Keeps I (f a)) : Keeps I (x >>= f) := by
  intro w hw
  have hx := h w hw
  rw [bind_apply]
  rcases e : x w with ⟨f | a, w₁⟩
  all_goals
    rw [e] at hx
  · exact hx
  · exact k a w₁ hx

theorem foldlM {g : β → α → Action σ β} (h : ∀ b a, Keeps I (g b a)) (xs : List α) (b : β) :
    Keeps I (xs.foldlM g b) := by
  induction xs generalizing b with
  | nil => exact .pure b
  | cons x xs ih =>
    rw [List.foldlM_cons]
    exact (h b x).bind ih

theorem mapM {g : α → Action σ β} (h : ∀ a, Keeps I (g a)) (xs : List α) : Keeps I (xs.mapM g) := by
  induction xs with
  | nil =>
    rw [List.mapM_nil]
    exact .pure []
  | cons x xs ih =>
    rw [List.mapM_cons]
    exact (h x).bind fun y => ih.bind fun ys => .pure (y :: ys)

end Keeps

namespace Yields

variable {r : Attempted α} {g : α → Attempted β}

theorem keeps (h : Yields I x r) : Keeps I x := fun w hw => (h w hw).2

/-- The result is the one that the action has in any of the worlds. -/
theorem from_world (h : Yields I x r) {w : σ} (hw : I w) : Yields I x (x w).1 := by
  rw [(h w hw).1]
  exact h

theorem pure (a : α) : Yields I (Pure.pure a : Action σ α) (.ok a) := fun _ hw => ⟨rfl, hw⟩

theorem bind (h : Yields I x r) (k : ∀ a, r = .ok a → Yields I (f a) (g a)) : Yields I (x >>= f) (r >>= g) := by
  intro w hw
  obtain ⟨rfl, hx⟩ := h w hw
  rw [bind_apply]
  rcases e : x w with ⟨f | a, w₁⟩
  all_goals
    rw [e] at hx
  · exact ⟨rfl, hx⟩
  · exact k a (by rw [e]) w₁ hx

theorem map (h : Yields I x r) (f : α → β) : Yields I (x >>= fun a => Pure.pure (f a)) (r.map f) := by
  intro w hw
  obtain ⟨e, keeps⟩ := h.bind (fun a _ => pure (f a)) w hw
  refine ⟨e.trans ?_, keeps⟩
  cases r <;> rfl

theorem during (h : Yields I x r) (attempt : Attempt) : Yields I (during attempt x) (r.during attempt) := by
  intro w hw
  obtain ⟨rfl, keeps⟩ := h w hw
  exact ⟨rfl, keeps⟩

theorem modify {f : σ → σ} (h : ∀ w, I w → I (f w)) : Yields I (modify f) (.ok ()) := fun w hw => ⟨rfl, h w hw⟩

theorem foldlM {f : β → α → Action σ β} {g : β → α → Attempted β} {xs : List α}
    (h : ∀ a ∈ xs, ∀ b, Yields I (f b a) (g b a)) (b : β) : Yields I (xs.foldlM f b) (xs.foldlM g b) := by
  induction xs generalizing b with
  | nil => exact .pure b
  | cons x xs ih =>
    rw [List.forall_mem_cons] at h
    rw [List.foldlM_cons, List.foldlM_cons]
    exact (h.1 b).bind fun b' _ => ih h.2 b'

theorem mapM {f : α → Action σ β} {xs : List α} (h : ∀ a ∈ xs, Yields I (f a) (g a)) :
    Yields I (xs.mapM f) (xs.mapM g) := by
  induction xs with
  | nil =>
    rw [List.mapM_nil, List.mapM_nil]
    exact .pure []
  | cons x xs ih =>
    rw [List.forall_mem_cons] at h
    rw [List.mapM_cons, List.mapM_cons]
    exact h.1.bind fun y _ => (ih h.2).bind fun ys _ => .pure (y :: ys)

end Yields

end Keeps

/-! ### What actions agree on -/

section Agrees

variable {I : σ → Prop} {x : Action σ α} {f : α → Action σ β} {a : α} {b : β}

/-- If an action answers that is begun in a world of `I`, the answer is `a`, and it ends in a world of `I`. -/
def Agrees (I : σ → Prop) (x : Action σ α) (a : α) : Prop := ∀ w r w', I w → x.Gives w r w' → r = a ∧ I w'

namespace Agrees

theorem pure (a : α) : Agrees I (Pure.pure a : Action σ α) a := by
  intro w r w' hw h
  obtain ⟨rfl, rfl⟩ := gives_pure.1 h
  exact ⟨rfl, hw⟩

theorem bind (h : Agrees I x a) (k : Agrees I (f a) b) : Agrees I (x >>= f) b := by
  intro w r w' hw e
  obtain ⟨a', w₁, e₁, e₂⟩ := gives_bind.1 e
  obtain ⟨rfl, hw₁⟩ := h w a' w₁ hw e₁
  exact k w₁ r w' hw₁ e₂

theorem during {attempt : Attempt} (h : Agrees I x a) : Agrees I (during attempt x) a :=
  fun w r w' hw e => h w r w' hw (gives_during.1 e)

theorem modify {f : σ → σ} (h : ∀ w, I w → I (f w)) : Agrees I (modify f) () := by
  intro w r w' hw e
  have e : @Eq (Attempted Unit × σ) (.ok (), f w) (.ok r, w') := e
  cases e
  exact ⟨rfl, h w hw⟩

end Agrees

end Agrees

/-! ### Actions that succeed -/

section Succeeds

variable {x : Action σ α} {f : α → Action σ β}

/-- The action answers, in whatever world it is begun. -/
def Succeeds (x : Action σ α) : Prop := ∀ w, ∃ a w', x.Gives w a w'

namespace Succeeds

theorem pure (a : α) : Succeeds (Pure.pure a : Action σ α) := fun w => ⟨a, w, gives_pure.2 ⟨rfl, rfl⟩⟩

theorem bind (h : x.Succeeds) (k : ∀ a, (f a).Succeeds) : (x >>= f).Succeeds := by
  intro w
  obtain ⟨a, w₁, hx⟩ := h w
  obtain ⟨b, w', hf⟩ := k a w₁
  exact ⟨b, w', gives_bind.2 ⟨a, w₁, hx, hf⟩⟩

theorem during {attempt : Attempt} (h : x.Succeeds) : (during attempt x).Succeeds := by
  intro w
  obtain ⟨a, w', hx⟩ := h w
  exact ⟨a, w', gives_during.2 hx⟩

theorem modify (f : σ → σ) : (modify f : Action σ Unit).Succeeds := fun w => ⟨(), f w, rfl⟩

end Succeeds

end Succeeds

end ScriptBundler.Action
