import ScriptBundler.Proofs.Path.Under

/-!
# Routes

A route is a list of relative texts, each of which is read from where the ones in front of it lead. All of it is one
relative path, whatever the directory from which it starts (`IsRoute.exists_join`). So it does not depend on this directory
which routes lead to the same path (`IsRoute.beq_under`) and what is left when the directory is taken off
(`IsRoute.exists_stripPrefix?_under`).
-/

namespace ScriptBundler.Path

variable {p q s t : Path} {text : String} {route route' : List String}

/-- The texts of a list are relative. -/
def IsRoute (route : List String) : Prop := ∀ text ∈ route, (⟨text⟩ : Path).isAbsolute = false

/-! ### Joining twice -/

private theorem isAbsolute_join (hs : s.isAbsolute = false) (ht : t.isAbsolute = false) :
    (s.join t).isAbsolute = false := by
  by_cases empty : s.text = ""
  · rw [join, if_neg (by simp [ht]), empty]
    exact ht
  · rcases e : s.text.toList with _ | ⟨c, cs⟩
    · exact absurd (String.toList_inj.1 e) empty
    · have front : (s.join t).text.toList.head? = some c := by
        rw [toList_join_of_relative empty ht, opening]
        split <;> simp [e]
      rw [isAbsolute, front]
      rwa [isAbsolute, e] at hs

private theorem text_join_of_relative_ne (hp : p.text ≠ "") (ht : t.isAbsolute = false) : (p.join t).text ≠ "" := by
  intro e
  have spelled := toList_join_of_relative hp ht
  obtain ⟨front, opens, -⟩ := opening_eq hp
  rw [e, opens] at spelled
  simp at spelled

private theorem opening_join_of_relative (hp : p.text ≠ "") (hs : s.isAbsolute = false) :
    (p.join s).opening = p.opening ++ if s.text = "" then [] else s.opening := by
  have spelled := toList_join_of_relative hp hs
  obtain ⟨front, opens, -⟩ := opening_eq hp
  unfold opening at opens ⊢
  by_cases empty : s.text = ""
  · rw [spelled, empty, if_pos rfl]
    simp [opening, opens]
  · have last : s.text.toList ≠ [] := fun e => empty (String.toList_inj.1 e)
    rw [spelled, List.getLast?_append_of_ne_nil _ last, if_neg empty, opening]
    split <;> simp

/-- What is read from there is read from here in one go. -/
private theorem join_join (hp : p.text ≠ "") (hs : s.isAbsolute = false) (ht : t.isAbsolute = false) :
    (p.join s).join t = p.join (s.join t) := by
  have spelled : ((p.join s).join t).text.toList = (p.join (s.join t)).text.toList := by
    rw [toList_join_of_relative (text_join_of_relative_ne hp hs) ht, opening_join_of_relative hp hs,
      toList_join_of_relative hp (isAbsolute_join hs ht), List.append_assoc]
    by_cases empty : s.text = ""
    · rw [if_pos empty, join, if_neg (by simp [ht]), empty]
      rfl
    · rw [if_neg empty, toList_join_of_relative empty ht]
  exact congrArg Path.mk (String.toList_inj.1 spelled)

/-! ### Routes as one path -/

namespace IsRoute

theorem text_under_ne (h : IsRoute route) (hp : p.text ≠ "") : (p.under route).text ≠ "" := by
  induction route generalizing p with
  | nil => exact hp
  | cons text route ih =>
    obtain ⟨relative, rest⟩ := List.forall_mem_cons.1 h
    exact ih rest (text_join_of_relative_ne hp relative)

/-- A route is one relative path. -/
theorem exists_join (h : IsRoute route) (hne : route ≠ []) : ∃ t : Path, t.isAbsolute = false ∧
    ∀ p : Path, p.text ≠ "" → p.under route = p.join t := by
  induction route with
  | nil => exact absurd rfl hne
  | cons text route ih =>
    obtain ⟨relative, rest⟩ := List.forall_mem_cons.1 h
    by_cases last : route = []
    · exact ⟨⟨text⟩, relative, fun p _ => by rw [last]; rfl⟩
    · obtain ⟨t, ht, joined⟩ := ih rest last
      refine ⟨(⟨text⟩ : Path).join t, isAbsolute_join relative ht, fun p hp => ?_⟩
      rw [under_cons, joined _ (text_join_of_relative_ne hp relative), join_join hp relative ht]

theorem exists_components (h : IsRoute route) : ∃ steps : List Component,
    ∀ p : Path, p.text ≠ "" → (p.under route).components = p.components ++ steps := by
  by_cases none : route = []
  · exact ⟨[], fun p _ => by rw [none, under_nil, List.append_nil]⟩
  · obtain ⟨t, ht, joined⟩ := h.exists_join none
    exact ⟨_, fun p hp => by rw [joined p hp, components_join_of_relative hp ht]⟩

/-- Whether two routes lead to the same path does not depend on where they start. -/
theorem beq_under (h : IsRoute route) (h' : IsRoute route') (hp : p.text ≠ "") (hq : q.text ≠ "") :
    (p.under route == p.under route') = (q.under route == q.under route') := by
  obtain ⟨steps, behind⟩ := h.exists_components
  obtain ⟨steps', behind'⟩ := h'.exists_components
  rw [Bool.eq_iff_iff, beq_iff, beq_iff, behind p hp, behind q hq, behind' p hp, behind' q hq, List.append_cancel_left_eq,
    List.append_cancel_left_eq]

theorem exists_stripPrefix?_under (h : IsRoute route) (hne : route ≠ []) : ∃ rest, ∀ p : Path, p.text ≠ "" →
    (p.under route).stripPrefix? p = some rest := by
  obtain ⟨t, ht, joined⟩ := h.exists_join hne
  exact ⟨_, fun p hp => by rw [joined p hp, stripPrefix?_join hp ht]⟩

/-- A file goes by the name that is behind the directory, unless nothing is. -/
theorem fileName?_under (h : IsRoute route) (hp : p.text ≠ "") (hq : q.text ≠ "") :
    (p.under route).fileName? = (q.under route).fileName? ∨
      (p.under route).fileName? = p.fileName? ∧ (q.under route).fileName? = q.fileName? := by
  obtain ⟨steps, behind⟩ := h.exists_components
  unfold fileName?
  rw [behind p hp, behind q hq]
  by_cases none : steps = []
  · exact .inr (by simp [none])
  · exact .inl (by rw [List.getLast?_append_of_ne_nil _ none, List.getLast?_append_of_ne_nil _ none])

end IsRoute

end ScriptBundler.Path
