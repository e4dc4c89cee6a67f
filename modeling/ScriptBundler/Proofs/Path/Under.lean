import ScriptBundler.Proofs.Path.Clean

/-!
# Paths below a directory

`Path.under` goes on from a path along names. What it comes to is spelled as the path, a slash and the names
(`toList_under`), and its steps are those of the path and the names (`components_under`). So the names are what is left
when the path is taken off (`stripPrefix?_under`), and they decide the order of such paths (`le_under`).
-/

namespace ScriptBundler.Path

open Disk (IsName)

variable {p q : Path} {name : String} {names names' : List String}

/-- The path that leads on from `p` along names. -/
def under (p : Path) (names : List String) : Path := names.foldl (fun p name => p.join ⟨name⟩) p

@[simp] theorem under_nil : p.under [] = p := rfl

theorem under_cons : p.under (name :: names) = (p.join ⟨name⟩).under names := rfl

theorem under_append : p.under (names ++ names') = (p.under names).under names' := List.foldl_append

theorem under_join (p : Path) (names : List String) (name : String) :
    (p.under names).join ⟨name⟩ = p.under (names ++ [name]) := by
  rw [under_append]
  rfl

/-- What stands in front of the names below a path. -/
def opening (p : Path) : List Char := if p.text.toList.getLast? = some '/' then p.text.toList else p.text.toList ++ ['/']

/-! ### Spelling -/

theorem isAbsolute_of_not_mem (h : '/' ∉ name.toList) : (⟨name⟩ : Path).isAbsolute = false := by
  rw [isAbsolute, beq_eq_false_iff_ne]
  exact fun slash => h (List.mem_of_head? slash)

theorem isAbsolute_of_isName (h : IsName name) : (⟨name⟩ : Path).isAbsolute = false := isAbsolute_of_not_mem h.2.2.2

theorem toList_join_of_relative {q : Path} (hp : p.text ≠ "") (h : q.isAbsolute = false) :
    (p.join q).text.toList = p.opening ++ q.text.toList := by
  unfold join opening
  rw [if_neg (by simp [h])]
  split
  · rename_i e
    exact absurd (String.toList_inj.1 (List.getLast?_eq_none_iff.1 e)) hp
  · rename_i e
    rw [if_pos e, String.toList_append]
  · rename_i c other e
    rw [if_neg (by simpa [e] using other), String.toList_append, String.toList_append]
    rfl

theorem isAbsolute_join_of_relative {q : Path} (hp : p.text ≠ "") (h : q.isAbsolute = false) :
    (p.join q).isAbsolute = p.isAbsolute := by
  obtain ⟨c, cs, e⟩ := List.exists_cons_of_ne_nil fun e => hp (String.toList_inj.1 e)
  unfold isAbsolute
  rw [toList_join_of_relative hp h, opening]
  split <;> simp [e]

theorem toList_join (hp : p.text ≠ "") (h : IsName name) : (p.join ⟨name⟩).text.toList = p.opening ++ name.toList :=
  toList_join_of_relative hp (isAbsolute_of_isName h)

theorem text_join_ne (hp : p.text ≠ "") (h : IsName name) : (p.join ⟨name⟩).text ≠ "" := by
  intro e
  have spelled := toList_join hp h
  rw [e] at spelled
  exact h.1 (String.toList_inj.1 (List.append_eq_nil_iff.1 spelled.symm).2)

theorem text_under_ne (hp : p.text ≠ "") (h : ∀ name ∈ names, IsName name) : (p.under names).text ≠ "" := by
  induction names generalizing p with
  | nil => exact hp
  | cons name names ih =>
    rw [List.forall_mem_cons] at h
    exact ih (text_join_ne hp h.1) h.2

theorem opening_join (hp : p.text ≠ "") (h : IsName name) : (p.join ⟨name⟩).opening = p.opening ++ name.toList ++ ['/'] := by
  have last : (p.join ⟨name⟩).text.toList.getLast? ≠ some '/' := by
    rw [toList_join hp h, List.getLast?_append_of_ne_nil _ fun e => h.1 (String.toList_inj.1 e)]
    exact fun e => h.2.2.2 (List.mem_of_getLast? e)
  rw [opening, if_neg last, toList_join hp h]

theorem toList_under (hp : p.text ≠ "") (h : ∀ name ∈ names, IsName name) (hne : names ≠ []) :
    (p.under names).text.toList = p.opening ++ joinPieces (names.map String.toList) := by
  induction names generalizing p with
  | nil => exact absurd rfl hne
  | cons name names ih =>
    rw [List.forall_mem_cons] at h
    rw [under_cons]
    cases names with
    | nil => exact toList_join hp h.1
    | cons next names =>
      rw [ih (text_join_ne hp h.1) h.2 (List.cons_ne_nil _ _), opening_join hp h.1]
      simp [joinPieces]

/-- Names make up a relative path. -/
theorem isAbsolute_of_names (h : ∀ name ∈ names, IsName name) :
    (⟨String.ofList (joinPieces (names.map String.toList))⟩ : Path).isAbsolute = false := by
  cases names with
  | nil => rfl
  | cons name names =>
    obtain ⟨c, cs, spelled⟩ := List.exists_cons_of_ne_nil fun e => (h name List.mem_cons_self).1 (String.toList_inj.1 e)
    have no_slash : c ≠ '/' := fun e => (h name List.mem_cons_self).2.2.2 (by simp [spelled, e])
    cases names <;> simp [isAbsolute, joinPieces, spelled, no_slash]

theorem under_eq_join (hp : p.text ≠ "") (h : ∀ name ∈ names, IsName name) (hne : names ≠ []) :
    p.under names = p.join ⟨String.ofList (joinPieces (names.map String.toList))⟩ := by
  have spelled : (p.under names).text.toList =
      (p.join ⟨String.ofList (joinPieces (names.map String.toList))⟩).text.toList := by
    rw [toList_under hp h hne, toList_join_of_relative hp (isAbsolute_of_names h), String.toList_ofList]
  exact congrArg Path.mk (String.toList_inj.1 spelled)

/-! ### Steps -/

/-- A slash opens an absolute path or parts the pieces on its two sides. -/
private theorem split_slash (front back : List Char) : ∃ head first rest,
    (⟨String.ofList (front ++ '/' :: back)⟩ : Path).split = (first, rest ++ pieces back) ∧
    (⟨String.ofList (front ++ '/' :: back)⟩ : Path).components = head :: (stepsOf rest ++ stepsOf (pieces back)) ∧
    (if front = [] then [.root] else (⟨String.ofList front⟩ : Path).components) = head :: stepsOf rest := by
  by_cases hf : front = []
  · subst hf
    have split_eq : (⟨String.ofList ('/' :: back)⟩ : Path).split = (none, pieces back) := by
      simp [split]
    exact ⟨.root, none, [], split_eq, components_of_absolute split_eq, rfl⟩
  rw [if_neg hf]
  rcases split_eq ⟨String.ofList front⟩ with ⟨cs, ht, hs⟩ | ⟨ht, -⟩ | ⟨first, rest, hfirst, ha, hp, -⟩
  · rw [String.toList_ofList] at ht
    have split_eq : (⟨String.ofList (front ++ '/' :: back)⟩ : Path).split = (none, pieces cs ++ pieces back) := by
      simp [split, ht, pieces_append_slash]
    refine ⟨.root, none, pieces cs, split_eq, ?_, components_of_absolute hs⟩
    rw [components_of_absolute split_eq, stepsOf_append]
  · exact absurd (by simpa using ht) hf
  · have whole : pieces (⟨String.ofList (front ++ '/' :: back)⟩ : Path).text.toList = first :: (rest ++ pieces back) := by
      rw [String.toList_ofList] at hp ⊢
      rw [pieces_append_slash, hp, List.cons_append]
    refine ⟨component first, some first, rest, ?_, ?_, components_of_pieces hfirst hp⟩
    · rcases split_eq ⟨String.ofList (front ++ '/' :: back)⟩ with ⟨cs, ht, -⟩ | ⟨ht, -⟩ | ⟨first', rest', -, -, hp', hs⟩
      · rw [ht, pieces, if_pos rfl, List.cons.injEq] at whole
        exact absurd whole.1.symm hfirst
      · simp at ht
      · rw [hp', List.cons.injEq] at whole
        rw [hs, whole.1, whole.2]
    · rw [components_of_pieces hfirst whole, stepsOf_append]

theorem blank_of_isName (h : IsName name) : blank name.toList = false := by
  have hne : name.toList ≠ [] := fun e => h.1 (String.toList_inj.1 e)
  have hdot : name.toList ≠ ['.'] := fun e => h.2.1 (String.toList_inj.1 e)
  simp [blank, hne, hdot]

theorem pieces_of_names (h : ∀ name ∈ names, IsName name) (hne : names ≠ []) :
    pieces (joinPieces (names.map String.toList)) = names.map String.toList := by
  refine pieces_joinPieces (by simpa using hne) fun piece hpiece => ?_
  obtain ⟨name, hname, rfl⟩ := List.mem_map.1 hpiece
  exact (h name hname).2.2.2

private theorem stepsOf_name (h : IsName name) : stepsOf (pieces name.toList) = [.normal name] := by
  have alone : pieces name.toList = [name.toList] := pieces_of_names (by simpa using h) (List.cons_ne_nil name [])
  rw [alone, stepsOf_cons (blank_of_isName h), Disk.component_toList h]
  rfl

theorem opening_eq (hp : p.text ≠ "") : ∃ front, p.opening = front ++ ['/'] ∧
    (if front = [] then [.root] else (⟨String.ofList front⟩ : Path).components) = p.components := by
  unfold opening
  split
  · rename_i e
    obtain ⟨front, ht⟩ := List.getLast?_eq_some_iff.1 e
    obtain ⟨head, -, rest, -, steps, steps'⟩ := split_slash front []
    refine ⟨front, ht, ?_⟩
    rw [← ht, String.ofList_toList] at steps
    rw [steps', steps]
    exact congrArg (List.cons head) (List.append_nil _).symm
  · have hne : p.text.toList ≠ [] := fun e => hp (String.toList_inj.1 e)
    exact ⟨_, rfl, by rw [if_neg hne, String.ofList_toList]⟩

/-- What is read from a path comes behind its pieces and its steps. -/
private theorem split_join {t : Path} (hp : p.text ≠ "") (ht : t.isAbsolute = false) : ∃ first rest,
    (p.join t).split = (first, rest ++ pieces t.text.toList) ∧
    (p.join t).components = p.components ++ stepsOf (pieces t.text.toList) ∧
    p.components.length = (stepsOf rest).length + 1 := by
  obtain ⟨front, opens, same⟩ := opening_eq hp
  obtain ⟨head, first, rest, parts, steps, steps'⟩ := split_slash front t.text.toList
  have spelled : p.join t = ⟨String.ofList (front ++ '/' :: t.text.toList)⟩ := by
    have e := toList_join_of_relative hp ht
    rw [opens, List.append_assoc] at e
    rw [← List.singleton_append, ← e, String.ofList_toList]
  rw [spelled]
  refine ⟨first, rest, parts, ?_, ?_⟩
  · rw [steps, ← same, steps', List.cons_append]
  · rw [← same, steps', List.length_cons]

theorem components_join_of_relative {t : Path} (hp : p.text ≠ "") (ht : t.isAbsolute = false) :
    (p.join t).components = p.components ++ stepsOf (pieces t.text.toList) := by
  obtain ⟨-, -, -, steps, -⟩ := split_join hp ht
  exact steps

private theorem components_join (hp : p.text ≠ "") (h : IsName name) :
    (p.join ⟨name⟩).components = p.components ++ [.normal name] := by
  rw [components_join_of_relative hp (isAbsolute_of_isName h), stepsOf_name h]

theorem components_under (hp : p.text ≠ "") (h : ∀ name ∈ names, IsName name) :
    (p.under names).components = p.components ++ names.map .normal := by
  induction names generalizing p with
  | nil => simp
  | cons name names ih =>
    rw [List.forall_mem_cons] at h
    rw [under_cons, ih (text_join_ne hp h.1) h.2, components_join hp h.1, List.map_cons, List.append_assoc,
      List.singleton_append]

/-! ### What is left behind the path -/

private theorem dropSteps_append (ps qs : List (List Char)) :
    dropSteps (stepsOf ps).length (ps ++ qs) = qs.dropWhile blank := by
  induction ps with
  | nil => rfl
  | cons piece ps ih =>
    by_cases hb : blank piece = true
    · have skip (n : Nat) : dropSteps n (piece :: ps ++ qs) = dropSteps n (ps ++ qs) := by
        cases n <;> simp [dropSteps, hb]
      rw [stepsOf_cons_of_blank hb, skip, ih]
    · rw [Bool.not_eq_true] at hb
      rw [stepsOf_cons hb, List.length_cons, List.cons_append, dropSteps, List.dropWhile_cons, hb]
      exact ih

private theorem trimEnd_append (ps qs : List (List Char)) :
    trimEnd (ps ++ qs) = if trimEnd qs = [] then trimEnd ps else ps ++ trimEnd qs := by
  unfold trimEnd
  rw [List.reverse_append, List.dropWhile_append]
  simp only [List.isEmpty_iff, List.reverse_eq_nil_iff]
  split
  · rfl
  · rw [List.reverse_append, List.reverse_reverse]

/-- What is read from a path is left when the path is taken off, without pieces in front and behind that name no step. -/
theorem stripPrefix?_join {t : Path} (hp : p.text ≠ "") (ht : t.isAbsolute = false) : (p.join t).stripPrefix? p =
    some ⟨String.ofList (joinPieces ((trimEnd (pieces t.text.toList)).dropWhile blank))⟩ := by
  obtain ⟨first, rest, parts, steps, count⟩ := split_join hp ht
  have front_steps : p.components.isPrefixOf (p.join t).components = true := by
    rw [steps]
    exact List.isPrefixOf_iff_prefix.2 (List.prefix_append _ _)
  have left : dropSteps (stepsOf rest).length (trimEnd (rest ++ pieces t.text.toList)) =
      (trimEnd (pieces t.text.toList)).dropWhile blank := by
    rw [trimEnd_append]
    split
    · rename_i none
      have all := dropSteps_append (trimEnd rest) []
      rw [stepsOf_trimEnd, List.append_nil] at all
      rw [none, all]
    · exact dropSteps_append _ _
  rw [stripPrefix?, parts]
  dsimp only
  rw [if_pos front_steps, count]
  exact congrArg (fun ps => some (⟨String.ofList (joinPieces ps)⟩ : Path)) left

private theorem dropWhile_of_named {ps : List (List Char)} (h : ∀ piece ∈ ps, blank piece = false) :
    ps.dropWhile blank = ps := by
  cases ps with
  | nil => rfl
  | cons piece ps => rw [List.dropWhile_cons, h piece List.mem_cons_self, if_neg Bool.false_ne_true]

private theorem trimEnd_of_named {ps : List (List Char)} (h : ∀ piece ∈ ps, blank piece = false) : trimEnd ps = ps := by
  rw [trimEnd, dropWhile_of_named fun piece hpiece => h piece (List.mem_reverse.1 hpiece), List.reverse_reverse]

/-- The names are what is left when the path is taken off. -/
theorem stripPrefix?_under (hp : p.text ≠ "") (h : ∀ name ∈ names, IsName name) (hne : names ≠ []) :
    (p.under names).stripPrefix? p = some ⟨String.ofList (joinPieces (names.map String.toList))⟩ := by
  have named : ∀ piece ∈ names.map String.toList, blank piece = false := by
    intro piece hpiece
    obtain ⟨name, hname, rfl⟩ := List.mem_map.1 hpiece
    exact blank_of_isName (h name hname)
  rw [under_eq_join hp h hne, stripPrefix?_join hp (isAbsolute_of_names h), String.toList_ofList, pieces_of_names h hne,
    trimEnd_of_named named, dropWhile_of_named named]

private theorem lex_append (front as bs : List Component) :
    List.lex (front ++ as) (front ++ bs) Component.lt = List.lex as bs Component.lt := by
  have irrefl (step : Component) : Component.lt step step = false := by
    cases step <;> simp [Component.lt]
  induction front with
  | nil => rfl
  | cons step front ih => simp [irrefl, ih]

/-- The order of paths below a directory is that of their names. -/
theorem le_under (hp : p.text ≠ "") (hq : q.text ≠ "") (h : ∀ name ∈ names, IsName name)
    (h' : ∀ name ∈ names', IsName name) :
    le (p.under names) (p.under names') = le (q.under names) (q.under names') := by
  rw [le, le, components_under hp h, components_under hp h', components_under hq h, components_under hq h', lex_append,
    lex_append]

end ScriptBundler.Path
