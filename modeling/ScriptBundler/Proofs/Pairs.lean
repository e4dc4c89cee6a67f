import Mathlib.Data.List.Forall2
import ScriptBundler.Proofs.Action

/-!
# Actions in pairs

Two results are alike if both are answers, related by `R`, or both are failures, related by `E` (`Attempted.Alike`). Two
actions are paired if they have results alike in worlds that `S` relates, and lead to such worlds again
(`Action.Paired`). Put together from actions that are paired, actions are paired.
-/

namespace ScriptBundler

variable {σ τ α β γ δ : Type} {E : Failure → Failure → Prop} {R : α → β → Prop}

/-! ### Results -/

/-- Both results are failures, or both are answers. -/
inductive Attempted.Alike (E : Failure → Failure → Prop) (R : α → β → Prop) : Attempted α → Attempted β → Prop where
  | error {f g : Failure} (h : E f g) : Alike E R (.error f) (.error g)
  | ok {a : α} {b : β} (h : R a b) : Alike E R (.ok a) (.ok b)

namespace Attempted.Alike

variable {r : Attempted α} {r' : Attempted β}

theorem isOk_eq (h : r.Alike E R r') : r.isOk = r'.isOk := by
  cases h <;> rfl

theorem of_ok {a : α} {b : β} (h : r.Alike E R r') (ha : r = .ok a) (hb : r' = .ok b) : R a b := by
  subst ha hb
  cases h
  assumption

theorem eq_iff {r r' : Attempted α} : r.Alike Eq Eq r' ↔ r = r' := by
  constructor
  · intro h
    cases h with
    | error h => rw [h]
    | ok h => rw [h]
  · rintro rfl
    cases r with
    | error => exact .error rfl
    | ok => exact .ok rfl

theorem mono {R' : α → β → Prop} (h : r.Alike E R r') (k : ∀ a b, R a b → R' a b) : r.Alike E R' r' := by
  cases h with
  | error h => exact .error h
  | ok h => exact .ok (k _ _ h)

theorem mono_of_ok {R' : α → β → Prop} (h : r.Alike E R r')
    (k : ∀ a b, r = .ok a → r' = .ok b → R a b → R' a b) : r.Alike E R' r' := by
  cases h with
  | error h => exact .error h
  | ok h => exact .ok (k _ _ rfl rfl h)

theorem bind {R' : γ → δ → Prop} {f : α → Attempted γ} {g : β → Attempted δ} (h : r.Alike E R r')
    (k : ∀ a b, R a b → (f a).Alike E R' (g b)) : Alike E R' (r >>= f) (r' >>= g) := by
  cases h with
  | error h => exact .error h
  | ok h => exact k _ _ h

theorem map {R' : γ → δ → Prop} {f : α → γ} {g : β → δ} (h : r.Alike E R r') (k : ∀ a b, R a b → R' (f a) (g b)) :
    Alike E R' (r.map f) (r'.map g) := by
  cases h with
  | error h => exact .error h
  | ok h => exact .ok (k _ _ h)

/-- For failures that need not be related, it does not matter what was being attempted. -/
theorem during {attempt attempt' : Attempt} (h : r.Alike (fun _ _ => True) R r') :
    Alike (fun _ _ => True) R (r.during attempt) (r'.during attempt') := by
  cases h with
  | error => exact .error trivial
  | ok h => exact .ok h

/-- Nor does it matter how anything failed. -/
theorem of_toOption {ε : Type} {cause : ε → Cause} {x y : Except ε γ} (h : x.toOption = y.toOption) :
    Alike (fun _ _ => True) Eq (Attempted.of cause x) (Attempted.of cause y) := by
  rcases x with e | a <;> rcases y with e' | b
  · exact .error trivial
  · nomatch h
  · nomatch h
  · exact .ok (Option.some.inj h)

theorem during_eq {attempt : Attempt} (h : r.Alike Eq R r') : Alike Eq R (r.during attempt) (r'.during attempt) := by
  cases h with
  | error h =>
    rw [h]
    exact .error rfl
  | ok h => exact .ok h

/-- Results that are alike to a third one are alike. -/
theorem join {s : Attempted γ} {P : α → γ → Prop} {Q : β → γ → Prop} (h : r.Alike Eq P s) (k : r'.Alike Eq Q s) :
    r.Alike Eq (fun a b => ∃ c, P a c ∧ Q b c) r' := by
  cases h with
  | error h => cases k with
    | error k => exact .error (h.trans k.symm)
  | ok h => cases k with
    | ok k => exact .ok ⟨_, h, k⟩

theorem mapM {ε : Failure → Failure → Prop} {Q : γ → δ → Prop} {f : γ → Attempted α} {g : δ → Attempted β} {xs : List γ}
    {ys : List δ} (h : ∀ x y, Q x y → (f x).Alike ε R (g y)) (hxs : List.Forall₂ Q xs ys) :
    Alike ε (List.Forall₂ R) (xs.mapM f) (ys.mapM g) := by
  induction hxs with
  | nil => exact .ok .nil
  | @cons x y xs ys hxy _ ih =>
    rw [List.mapM_cons, List.mapM_cons]
    have head := h x y hxy
    generalize f x = r, g y = r' at head
    generalize xs.mapM f = rs, ys.mapM g = rs' at ih
    cases head with
    | error h => exact .error h
    | ok h => cases ih with
      | error k => exact .error k
      | ok k => exact .ok (.cons h k)

end Attempted.Alike

/-! ### Actions -/

namespace Action

variable {S : σ → τ → Prop} {x : Action σ α} {y : Action τ β}

/-- Begun in worlds that are related, the actions have results alike and end in related worlds. -/
def Paired (S : σ → τ → Prop) (E : Failure → Failure → Prop) (R : α → β → Prop) (x : Action σ α) (y : Action τ β) : Prop :=
  ∀ w v, S w v → Attempted.Alike E R (x w).1 (y v).1 ∧ S (x w).2 (y v).2

namespace Paired

variable {R' : γ → δ → Prop}

theorem pure {a : α} {b : β} (h : R a b) : Paired S E R (Pure.pure a) (Pure.pure b) := fun _ _ hs => ⟨.ok h, hs⟩

theorem lift {r : Attempted α} {r' : Attempted β} (h : r.Alike E R r') : Paired S E R (Action.lift r) (Action.lift r') :=
  fun _ _ hs => ⟨h, hs⟩

theorem get : Paired S E S (MonadState.get : Action σ σ) (MonadState.get : Action τ τ) := fun _ _ hs => ⟨.ok hs, hs⟩

theorem bind {f : α → Action σ γ} {g : β → Action τ δ} (h : Paired S E R x y)
    (k : ∀ a b, R a b → Paired S E R' (f a) (g b)) : Paired S E R' (x >>= f) (y >>= g) := by
  intro w v hs
  have first := h w v hs
  rw [bind_apply, bind_apply]
  rcases ex : x w with ⟨r, w₁⟩
  rcases ey : y v with ⟨r', v₁⟩
  rw [ex, ey] at first
  obtain ⟨alike, hs₁⟩ := first
  cases alike with
  | error e => exact ⟨.error e, hs₁⟩
  | ok hab => exact k _ _ hab w₁ v₁ hs₁

/-- Actions that always have the same results are paired if these are alike. -/
theorem of_yields {I : σ → Prop} {J : τ → Prop} {r : Attempted α} {r' : Attempted β} (hx : x.Yields I r)
    (hy : y.Yields J r') (h : r.Alike E R r') : Paired (fun w v => I w ∧ J v) E R x y := by
  intro w v hs
  obtain ⟨rfl, hw⟩ := hx w hs.1
  obtain ⟨rfl, hv⟩ := hy v hs.2
  exact ⟨h, hw, hv⟩

theorem modify {f : σ → σ} {g : τ → τ} (h : ∀ w v, S w v → S (f w) (g v)) :
    Paired S E Eq (modify f : Action σ Unit) (modify g : Action τ Unit) := fun w v hs => ⟨.ok rfl, h w v hs⟩

theorem foldlM_forall₂ {Q : γ → δ → Prop} {f : α → γ → Action σ α} {g : β → δ → Action τ β} {xs : List γ} {ys : List δ}
    (h : ∀ a b x y, R a b → Q x y → Paired S E R (f a x) (g b y)) (hxs : List.Forall₂ Q xs ys) {a : α} {b : β} (hab : R a b) :
    Paired S E R (xs.foldlM f a) (ys.foldlM g b) := by
  induction hxs generalizing a b with
  | nil => exact .pure hab
  | cons hxy _ ih =>
    rw [List.foldlM_cons, List.foldlM_cons]
    exact (h _ _ _ _ hab hxy).bind fun _ _ => ih

theorem foldlM {f : α → γ → Action σ α} {g : α → γ → Action τ α} (h : ∀ a x, Paired S E Eq (f a x) (g a x))
    (xs : List γ) (a : α) : Paired S E Eq (xs.foldlM f a) (xs.foldlM g a) :=
  foldlM_forall₂ (Q := Eq) (fun _ _ _ _ ha hx => ha ▸ hx ▸ h _ _) (List.forall₂_same.2 fun _ _ => rfl) rfl

theorem mapM {Q : γ → δ → Prop} {f : γ → Action σ α} {g : δ → Action τ β} {xs : List γ} {ys : List δ}
    (h : ∀ x y, Q x y → Paired S E R (f x) (g y)) (hxs : List.Forall₂ Q xs ys) :
    Paired S E (List.Forall₂ R) (xs.mapM f) (ys.mapM g) := by
  induction hxs with
  | nil => exact .pure .nil
  | cons hxy _ ih =>
    rw [List.mapM_cons, List.mapM_cons]
    exact (h _ _ hxy).bind fun _ _ hab => ih.bind fun _ _ habs => .pure (.cons hab habs)

end Paired

end Action

end ScriptBundler
