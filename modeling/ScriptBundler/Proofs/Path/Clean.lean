import Mathlib.Data.List.Induction
import ScriptBundler.Proofs.Disk.Place

/-!
# Joining, stripping and cleaning

A path that is read from a directory takes its steps behind those of the directory (`cleanSteps_join`), and what is left
of a path behind a prefix are its other steps (`components_of_stripPrefix?`). Whether a path leaves the directory it is
read from is seen from its own steps: they stay below exactly if they clean up to names (`forall_inside_join_iff`).
-/

namespace ScriptBundler.Path

open Disk (IsName)

variable {p q r base : Path} {cs : List Char} {piece : List Char} {ps rest : List (List Char)}
  {first : Option (List Char)} {steps : List Component}

/-! ### Steps of pieces -/

/-- The steps that pieces stand for behind the first one. -/
def stepsOf (ps : List (List Char)) : List Component := (ps.filter (!blank ·)).map component

theorem stepsOf_append (ps qs : List (List Char)) : stepsOf (ps ++ qs) = stepsOf ps ++ stepsOf qs := by
  rw [stepsOf, List.filter_append, List.map_append]
  rfl

theorem stepsOf_cons_of_blank (h : blank piece = true) : stepsOf (piece :: ps) = stepsOf ps := by
  simp [stepsOf, h]

theorem stepsOf_cons (h : blank piece = false) : stepsOf (piece :: ps) = component piece :: stepsOf ps := by
  simp [stepsOf, h]

private theorem stepsOf_dropWhile (ps : List (List Char)) : stepsOf (ps.dropWhile blank) = stepsOf ps := by
  induction ps with
  | nil => rfl
  | cons piece ps ih =>
    by_cases h : blank piece = true
    · rw [List.dropWhile_cons_of_pos h, ih, stepsOf_cons_of_blank h]
    · rw [List.dropWhile_cons_of_neg h]

private theorem stepsOf_reverse (ps : List (List Char)) : stepsOf ps.reverse = (stepsOf ps).reverse := by
  simp [stepsOf]

theorem stepsOf_trimEnd (ps : List (List Char)) : stepsOf (trimEnd ps) = stepsOf ps := by
  rw [trimEnd, stepsOf_reverse, stepsOf_dropWhile, stepsOf_reverse, List.reverse_reverse]

private theorem stepsOf_dropSteps (n : Nat) (ps : List (List Char)) :
    stepsOf (dropSteps n ps) = (stepsOf ps).drop n := by
  induction n generalizing ps with
  | zero => exact stepsOf_dropWhile ps
  | succ n ih =>
    unfold dropSteps
    rw [← stepsOf_dropWhile ps]
    split
    · rename_i h
      rw [h]
      rfl
    · rename_i piece rest h
      have hb : blank piece = false := by
        have := List.head?_dropWhile_not blank ps
        simpa [h] using this
      rw [h, ih, stepsOf_cons hb, List.drop_succ_cons]

theorem pieces_cons_of_ne {c : Char} (hc : c ≠ '/') (cs : List Char) :
    ∃ first rest, pieces cs = first :: rest ∧ pieces (c :: cs) = (c :: first) :: rest := by
  induction cs generalizing c with
  | nil => exact ⟨[], [], rfl, by rw [pieces, if_neg hc]; rfl⟩
  | cons d cs ih =>
    by_cases hd : d = '/'
    · subst hd
      refine ⟨[], pieces cs, rfl, ?_⟩
      rw [pieces, if_neg hc]
      rfl
    · obtain ⟨first, rest, -, e⟩ := ih hd
      refine ⟨d :: first, rest, e, ?_⟩
      rw [pieces, if_neg hc, e]

theorem pieces_append_slash (cs ds : List Char) : pieces (cs ++ '/' :: ds) = pieces cs ++ pieces ds := by
  induction cs with
  | nil => rfl
  | cons c cs ih =>
    by_cases hc : c = '/'
    · subst hc
      show [] :: pieces (cs ++ '/' :: ds) = [] :: pieces cs ++ pieces ds
      rw [ih, List.cons_append]
    · obtain ⟨first, rest, e, e'⟩ := pieces_cons_of_ne hc (cs ++ '/' :: ds)
      obtain ⟨first', rest', k, k'⟩ := pieces_cons_of_ne hc cs
      rw [ih, k, List.cons_append, List.cons.injEq] at e
      rw [List.cons_append, e', k', e.1, ← e.2, List.cons_append]

/-- An absolute path has no first piece of its own, and a relative one has no first piece exactly if it is empty. -/
theorem split_eq (p : Path) : (∃ cs, p.text.toList = '/' :: cs ∧ p.split = (none, pieces cs)) ∨
    (p.text = "" ∧ p.split = (some [], [])) ∨
    ∃ first rest, first ≠ [] ∧ p.isAbsolute = false ∧ pieces p.text.toList = first :: rest ∧
      p.split = (some first, rest) := by
  unfold split isAbsolute
  rcases h : p.text.toList with _ | ⟨c, cs⟩
  · exact .inr (.inl ⟨String.toList_inj.1 h, rfl⟩)
  · by_cases hc : c = '/'
    · subst hc
      exact .inl ⟨cs, rfl, rfl⟩
    · obtain ⟨first, rest, -, e⟩ := pieces_cons_of_ne hc cs
      refine .inr (.inr ⟨c :: first, rest, List.cons_ne_nil _ _, by simpa using hc, e, ?_⟩)
      split
      · rename_i heq
        exact absurd (List.cons.inj heq).1 hc
      · rw [e]

theorem components_of_split {first : List Char} {rest : List (List Char)} (hf : first ≠ [])
    (h : p.split = (some first, rest)) : p.components = component first :: stepsOf rest := by
  unfold components
  rw [h]
  cases first with
  | nil => exact absurd rfl hf
  | cons => rfl

theorem components_of_absolute {rest : List (List Char)} (h : p.split = (none, rest)) :
    p.components = .root :: stepsOf rest := by
  unfold components
  rw [h]
  rfl

theorem components_of_empty (h : p.text = "") : p.components = [] := by
  unfold components split
  rw [h]
  rfl

theorem isAbsolute_iff : p.isAbsolute = true ↔ Component.root ∈ p.components := by
  have ne_root (piece : List Char) : component piece ≠ .root := by
    unfold component
    split
    · simp
    · split <;> simp
  have not_mem (ps : List (List Char)) : Component.root ∉ stepsOf ps := by
    intro h
    obtain ⟨piece, -, e⟩ := List.mem_map.1 h
    exact ne_root piece e
  rcases split_eq p with ⟨cs, ht, hs⟩ | ⟨ht, -⟩ | ⟨first, rest, hf, ha, -, hs⟩
  · rw [components_of_absolute hs, isAbsolute, ht]
    simp
  · rw [components_of_empty ht, isAbsolute, ht]
    simp
  · rw [components_of_split hf hs, ha]
    simp [not_mem, (ne_root first).symm]

theorem isAbsolute_congr (same : (p == q) = true) : p.isAbsolute = q.isAbsolute := by
  rw [Bool.eq_iff_iff, isAbsolute_iff, isAbsolute_iff, beq_iff.1 same]

theorem components_of_pieces {first : List Char} {rest : List (List Char)} (hf : first ≠ [])
    (h : pieces p.text.toList = first :: rest) : p.components = component first :: stepsOf rest := by
  rcases split_eq p with ⟨cs, ht, -⟩ | ⟨ht, -⟩ | ⟨first', rest', hf', -, hp, hs⟩
  · rw [ht, pieces, if_pos rfl, List.cons.injEq] at h
    exact absurd h.1.symm hf
  · rw [ht, String.toList_empty, pieces, List.cons.injEq] at h
    exact absurd h.1.symm hf
  · rw [hp, List.cons.injEq] at h
    rw [components_of_split hf' hs, h.1, h.2]

private theorem stepsOf_pieces_joinPieces (h : ∀ piece ∈ ps, '/' ∉ piece) :
    stepsOf (pieces (joinPieces ps)) = stepsOf ps := by
  by_cases hne : ps = []
  · rw [hne]
    rfl
  · rw [pieces_joinPieces hne h]

/-- A text of pieces, the first of which names a step. -/
theorem components_joinPieces (h : ∀ piece ∈ ps, '/' ∉ piece) (head : ∀ piece ∈ ps.head?, blank piece = false) :
    (⟨String.ofList (joinPieces ps)⟩ : Path).components = stepsOf ps := by
  cases ps with
  | nil => exact components_of_empty rfl
  | cons piece ps =>
    have hb : blank piece = false := head piece rfl
    have hne : piece ≠ [] := by
      rintro rfl
      cases hb
    have e : pieces (String.ofList (joinPieces (piece :: ps))).toList = piece :: ps := by
      rw [String.toList_ofList]
      exact pieces_joinPieces (List.cons_ne_nil piece ps) h
    rw [stepsOf_cons hb]
    exact components_of_pieces hne e

private theorem blank_of_mem_head?_dropSteps {n : Nat} (h : piece ∈ (dropSteps n ps).head?) : blank piece = false := by
  induction n generalizing ps with
  | zero =>
    have := List.head?_dropWhile_not blank ps
    rw [dropSteps] at h
    simpa [Option.mem_def.1 h] using this
  | succ n ih =>
    unfold dropSteps at h
    split at h
    · cases h
    · exact ih h

private theorem mem_of_mem_dropSteps {n : Nat} (h : piece ∈ dropSteps n ps) : piece ∈ ps := by
  induction n generalizing ps with
  | zero => exact (List.dropWhile_sublist _).subset h
  | succ n ih =>
    unfold dropSteps at h
    split at h
    · cases h
    · rename_i first rest e
      exact (List.dropWhile_sublist _).subset (e ▸ List.mem_cons_of_mem first (ih h))

theorem mem_of_mem_trimEnd (h : piece ∈ trimEnd ps) : piece ∈ ps := by
  have := (List.dropWhile_sublist _).subset (List.mem_reverse.1 h)
  exact List.mem_reverse.1 this

theorem components_unsplit_none (h : ∀ piece ∈ ps, '/' ∉ piece) : (unsplit (none, ps)).components = .root :: stepsOf ps := by
  have split_eq : (unsplit (none, ps)).split = (none, pieces (joinPieces ps)) := by
    unfold unsplit split
    simp only [String.toList_ofList]
  rw [components_of_absolute split_eq, stepsOf_pieces_joinPieces h]

theorem components_unsplit_some {first : List Char} (hf : first ≠ []) (h : ∀ piece ∈ first :: ps, '/' ∉ piece) :
    (unsplit (some first, ps)).components = component first :: stepsOf ps := by
  refine components_of_pieces hf ?_
  unfold unsplit
  rw [String.toList_ofList]
  exact pieces_joinPieces (List.cons_ne_nil _ _) h

/-- The path with the steps of a path, without the pieces at its end that name no step. -/
private theorem components_unsplit (h : p.split = (first, rest)) :
    (unsplit (first, trimEnd rest)).components = p.components := by
  have kept {rest : List (List Char)} (hr : ∀ piece ∈ rest, '/' ∉ piece) : ∀ piece ∈ trimEnd rest, '/' ∉ piece :=
    fun piece hpiece => hr piece (mem_of_mem_trimEnd hpiece)
  rcases split_eq p with ⟨cs, -, hs⟩ | ⟨ht, hs⟩ | ⟨first', rest', hf, -, hp, hs⟩
  all_goals
    obtain ⟨rfl, rfl⟩ := Prod.mk.inj (h.symm.trans hs)
  · rw [components_unsplit_none (kept fun _ => not_mem_of_mem_pieces), components_of_absolute hs, stepsOf_trimEnd]
  · rw [components_of_empty ht]
    exact components_of_empty rfl
  · have no_slash : ∀ piece ∈ first' :: rest, '/' ∉ piece := fun piece hpiece => not_mem_of_mem_pieces (hp ▸ hpiece)
    rw [List.forall_mem_cons] at no_slash
    rw [components_unsplit_some hf (List.forall_mem_cons.2 ⟨no_slash.1, kept no_slash.2⟩), components_of_split hf hs,
      stepsOf_trimEnd]

/-- A path has the steps of a prefix and those of what is left behind it. -/
theorem components_of_stripPrefix? (h : p.stripPrefix? base = some r) :
    p.components = base.components ++ r.components := by
  unfold stripPrefix? at h
  rcases hs : p.split with ⟨first, rest⟩
  simp only [hs] at h
  split at h
  · rename_i hp
    obtain ⟨tail, e⟩ := List.isPrefixOf_iff_prefix.1 hp
    split at h
    · rename_i hn
      rw [Option.some.injEq] at h
      rw [← h, components_unsplit hs, List.length_eq_zero_iff.1 hn, List.nil_append]
    · rename_i n hn
      rw [Option.some.injEq] at h
      -- the first step is that of the root or of the first piece
      obtain ⟨step, hstep, no_slash⟩ : ∃ step, p.components = step :: stepsOf rest ∧ ∀ piece ∈ rest, '/' ∉ piece := by
        rcases split_eq p with ⟨cs, -, hs'⟩ | ⟨ht, -⟩ | ⟨first', rest', hf, -, hp, hs'⟩
        · obtain ⟨rfl, rfl⟩ := Prod.mk.inj (hs.symm.trans hs')
          exact ⟨_, components_of_absolute hs', fun _ => not_mem_of_mem_pieces⟩
        · rw [components_of_empty ht, List.append_eq_nil_iff] at e
          rw [e.1] at hn
          cases hn
        · obtain ⟨rfl, rfl⟩ := Prod.mk.inj (hs.symm.trans hs')
          exact ⟨_, components_of_split hf hs',
            fun piece hpiece => not_mem_of_mem_pieces (hp ▸ List.mem_cons_of_mem first' hpiece)⟩
      have left : r.components = (stepsOf rest).drop n := by
        rw [← h, components_joinPieces, stepsOf_dropSteps, stepsOf_trimEnd]
        · exact fun piece hpiece => no_slash piece (mem_of_mem_trimEnd (mem_of_mem_dropSteps hpiece))
        · exact fun piece => blank_of_mem_head?_dropSteps
      have dropped : p.components.drop (n + 1) = tail := by
        rw [← e, ← Nat.succ_eq_add_one, ← hn, List.drop_left]
      rw [← e, left, ← dropped, hstep, List.drop_succ_cons]
  · cases h

theorem not_prefix_of_stripPrefix? (h : p.stripPrefix? base = none) : ¬ base.components <+: p.components := by
  intro hp
  unfold stripPrefix? at h
  rcases p.split with ⟨first, rest⟩
  simp only [List.isPrefixOf_iff_prefix.2 hp, if_true] at h
  split at h <;> cases h

/-! ### Cleaning -/

/-- The steps of the cleaned path. -/
def cleanSteps (p : Path) : List Component := p.components.foldl cleanStep []

private theorem foldl_cleanStep_filter (steps done : List Component) :
    (steps.filter (· ≠ .here)).foldl cleanStep done = steps.foldl cleanStep done := by
  induction steps generalizing done with
  | nil => rfl
  | cons step steps ih =>
    by_cases h : step = .here
    · subst h
      exact ih done
    · rw [List.filter_cons_of_pos (by simpa using h), List.foldl_cons, List.foldl_cons, ih]

private theorem component_ne_here (h : blank piece = false) : component piece ≠ .here := by
  have hd : piece ≠ ['.'] := by
    rintro rfl
    cases h
  unfold component
  rw [if_neg hd]
  split <;> simp

private theorem filter_stepsOf (ps : List (List Char)) : (stepsOf ps).filter (· ≠ .here) = stepsOf ps := by
  rw [List.filter_eq_self]
  intro step h
  obtain ⟨piece, hpiece, rfl⟩ := List.mem_map.1 h
  have hb : blank piece = false := by simpa using (List.mem_filter.1 hpiece).2
  simpa using component_ne_here hb

/-- But for a dot in front, the steps of a path are those of its pieces. -/
theorem filter_components (p : Path) : p.components.filter (· ≠ .here) =
    (if p.isAbsolute then [.root] else []) ++ stepsOf (pieces p.text.toList) := by
  rcases split_eq p with ⟨cs, ht, hs⟩ | ⟨ht, -⟩ | ⟨first, rest, hf, ha, hp, hs⟩
  · have ha : p.isAbsolute = true := by
      rw [isAbsolute, ht]
      rfl
    rw [components_of_absolute hs, ha, ht, pieces, if_pos rfl, if_pos rfl, stepsOf_cons_of_blank rfl,
      List.filter_cons_of_pos (by simp), filter_stepsOf]
    rfl
  · rw [components_of_empty ht, isAbsolute, ht]
    rfl
  · rw [components_of_split hf hs, ha, hp]
    by_cases hd : first = ['.']
    · rw [hd, List.filter_cons_of_neg (by simp [component]), filter_stepsOf, stepsOf_cons_of_blank rfl]
      rfl
    · have hb : blank first = false := by simp [blank, hf, hd]
      rw [stepsOf_cons hb, List.filter_cons_of_pos (by simpa using component_ne_here hb), filter_stepsOf]
      rfl

/-- A relative path takes its steps behind those of the directory it is read from. -/
private theorem filter_components_join (hq : q.isAbsolute = false) : (p.join q).components.filter (· ≠ .here) =
    p.components.filter (· ≠ .here) ++ q.components.filter (· ≠ .here) := by
  unfold join
  rw [if_neg (by simp [hq])]
  split
  · rename_i h
    have ht : p.text = "" := String.toList_inj.1 (List.getLast?_eq_none_iff.1 h)
    rw [components_of_empty ht]
    rfl
  · rename_i h
    obtain ⟨cs, ht⟩ := List.getLast?_eq_some_iff.1 h
    have ht' : (p.text ++ q.text).toList = cs ++ '/' :: q.text.toList := by simp [ht]
    have ha : (⟨p.text ++ q.text⟩ : Path).isAbsolute = p.isAbsolute := by
      rw [isAbsolute, isAbsolute, ht', ht]
      cases cs <;> rfl
    rw [filter_components, filter_components p, filter_components q, ha, hq]
    simp only [ht', ht, pieces_append_slash, stepsOf_append]
    simp [stepsOf, pieces, blank]
  · rename_i c hc h
    obtain ⟨cs, ht⟩ := List.getLast?_eq_some_iff.1 h
    have ht' : (p.text ++ "/" ++ q.text).toList = p.text.toList ++ '/' :: q.text.toList := by simp
    have ha : (⟨p.text ++ "/" ++ q.text⟩ : Path).isAbsolute = p.isAbsolute := by
      rw [isAbsolute, isAbsolute, ht', ht]
      cases cs <;> rfl
    rw [filter_components, filter_components p, filter_components q, ha, hq]
    simp only [ht', pieces_append_slash, stepsOf_append]
    simp

theorem cleanSteps_join (hq : q.isAbsolute = false) :
    (p.join q).cleanSteps = q.components.foldl cleanStep p.cleanSteps := by
  unfold cleanSteps
  rw [← foldl_cleanStep_filter, filter_components_join hq, List.foldl_append, foldl_cleanStep_filter,
    foldl_cleanStep_filter]

/-! ### Staying below a directory -/

/-- Once cleaned, the path is the directory or lies below it. -/
def Inside (out p : Path) : Prop := ∃ names : List String, p.cleanSteps = out.cleanSteps ++ names.map .normal

/-- Once cleaned, the steps are names only: they neither climb nor begin at the root. -/
def Descends (steps : List Component) : Prop := ∀ step ∈ steps.foldl cleanStep [], ∃ name, step = .normal name

/-- Two dots behind other steps. -/
theorem cleanStep_up_concat (front : List Component) (last : Component) : cleanStep (front ++ [last]) .up =
    (match last with
    | .root => front ++ [.root]
    | .normal _ => front
    | step => front ++ [step, .up]) := by
  unfold cleanStep
  simp only [List.getLast?_concat, List.dropLast_concat, List.append_assoc, List.singleton_append]
  cases last <;> rfl

theorem foldl_cleanStep_names (done : List Component) (names : List String) :
    (names.map Component.normal).foldl cleanStep done = done ++ names.map .normal := by
  induction names generalizing done with
  | nil => simp
  | cons name names ih =>
    rw [List.map_cons, List.foldl_cons, ih]
    exact List.append_assoc done [.normal name] _

/-- Steps that descend do so from everywhere. -/
theorem Descends.foldl_cleanStep (h : Descends steps) (done : List Component) :
    steps.foldl cleanStep done = done ++ steps.foldl cleanStep [] := by
  induction steps using List.reverseRecOn with
  | nil => exact (List.append_nil done).symm
  | append_singleton steps step ih =>
    unfold Descends at h
    rw [List.foldl_concat] at h
    rw [List.foldl_concat, List.foldl_concat]
    cases step with
    | root =>
      obtain ⟨name, e⟩ := h .root (List.mem_append_right _ (List.mem_singleton_self _))
      cases e
    | here => exact ih h
    | up =>
      rcases List.eq_nil_or_concat (steps.foldl cleanStep []) with e | ⟨front, last, e⟩
      · obtain ⟨name, e⟩ := h .up (by simp [e, cleanStep])
        cases e
      · rw [List.concat_eq_append] at e
        rw [e, cleanStep_up_concat] at h
        cases last with
        | root =>
          obtain ⟨name, e⟩ := h .root (by simp)
          cases e
        | here =>
          obtain ⟨name, e⟩ := h .up (by simp)
          cases e
        | up =>
          obtain ⟨name, e⟩ := h .up (by simp)
          cases e
        | normal name =>
          -- the last name is taken back, and what is in front of it descends
          have descends : Descends steps := by
            intro step hstep
            rw [e] at hstep
            rcases List.mem_append.1 hstep with hstep | hstep
            · exact h step hstep
            · exact ⟨name, List.mem_singleton.1 hstep⟩
          rw [ih descends, e, ← List.append_assoc, cleanStep_up_concat, cleanStep_up_concat]
    | normal name =>
      have descends : Descends steps := fun step hstep => h step (List.mem_append_left _ hstep)
      rw [ih descends]
      exact List.append_assoc ..

/-- Two dots in front stay there, and what follows is cleaned as if they were not. -/
private theorem foldl_cleanStep_up (h : Component.root ∉ steps) :
    steps.foldl cleanStep [.up] = .up :: steps.foldl cleanStep [] ∧ Component.root ∉ steps.foldl cleanStep [] := by
  induction steps using List.reverseRecOn with
  | nil => simp
  | append_singleton steps step ih =>
    rw [List.mem_append, not_or, List.mem_singleton] at h
    obtain ⟨ih, hroot⟩ := ih h.1
    rw [List.foldl_concat, List.foldl_concat, ih]
    cases step with
    | root => exact absurd rfl h.2
    | here => exact ⟨rfl, hroot⟩
    | up =>
      rcases List.eq_nil_or_concat (steps.foldl cleanStep []) with e | ⟨front, last, e⟩
      · rw [e]
        simp [cleanStep]
      · rw [List.concat_eq_append] at e
        rw [e, List.mem_append, not_or] at hroot
        rw [e, ← List.cons_append, cleanStep_up_concat, cleanStep_up_concat]
        cases last with
        | root => simp at hroot
        | here => simpa using hroot.1
        | up => simpa using hroot.1
        | normal name => exact ⟨rfl, hroot.1⟩
    | normal name =>
      refine ⟨rfl, ?_⟩
      show Component.root ∉ List.foldl cleanStep [] steps ++ [.normal name]
      simpa using hroot

/-- A root is never taken back. -/
private theorem foldl_cleanStep_root (steps done : List Component) :
    ∃ rest, steps.foldl cleanStep (.root :: done) = .root :: rest := by
  induction steps generalizing done with
  | nil => exact ⟨done, rfl⟩
  | cons step steps ih =>
    rw [List.foldl_cons]
    cases step with
    | root => exact ih (done ++ [.root])
    | here => exact ih done
    | up =>
      rcases List.eq_nil_or_concat done with rfl | ⟨front, last, rfl⟩
      · exact ih []
      · rw [List.concat_eq_append, ← List.cons_append, cleanStep_up_concat]
        cases last with
        | root => exact ih (front ++ [.root])
        | here => exact ih (front ++ [.here, .up])
        | up => exact ih (front ++ [.up, .up])
        | normal name => exact ih front
    | normal name => exact ih (done ++ [.normal name])

private theorem cleanSteps_of_isAbsolute (h : p.isAbsolute = true) : ∃ rest, p.cleanSteps = .root :: rest := by
  rcases split_eq p with ⟨cs, -, hs⟩ | ⟨ht, -⟩ | ⟨first, rest, -, ha, -, -⟩
  · rw [cleanSteps, components_of_absolute hs, List.foldl_cons]
    exact foldl_cleanStep_root _ []
  · rw [isAbsolute, ht] at h
    cases h
  · rw [ha] at h
    cases h

private theorem Descends.isAbsolute_eq (h : Descends p.components) : p.isAbsolute = false := by
  by_contra ha
  obtain ⟨rest, e⟩ := cleanSteps_of_isAbsolute (Bool.not_eq_false _ ▸ ha)
  obtain ⟨name, e'⟩ := h .root (by rw [← cleanSteps, e]; exact List.mem_cons_self)
  cases e'

theorem exists_names (h : ∀ step ∈ steps, ∃ name, step = .normal name) :
    ∃ names : List String, steps = names.map .normal := by
  induction steps with
  | nil => exact ⟨[], rfl⟩
  | cons step steps ih =>
    rw [List.forall_mem_cons] at h
    obtain ⟨⟨name, rfl⟩, h⟩ := h
    obtain ⟨names, rfl⟩ := ih h
    exact ⟨name :: names, rfl⟩

/-- A path stays below every directory it is read from if and only if its steps descend. -/
theorem forall_inside_join_iff : (∀ out, Inside out (out.join q)) ↔ Descends q.components := by
  constructor
  · intro h
    obtain ⟨names, e⟩ := h ⟨".."⟩
    have up : cleanSteps ⟨".."⟩ = [.up] := by decide
    cases hq : q.isAbsolute with
    | true =>
      obtain ⟨rest, k⟩ := cleanSteps_of_isAbsolute hq
      rw [join, if_pos hq, k, up] at e
      cases e
    | false =>
      have hroot : Component.root ∉ q.components := fun hr => by simp [isAbsolute_iff.2 hr] at hq
      rw [cleanSteps_join hq, up, (foldl_cleanStep_up hroot).1, List.singleton_append, List.cons.injEq] at e
      intro step hstep
      rw [e.2] at hstep
      obtain ⟨name, -, rfl⟩ := List.mem_map.1 hstep
      exact ⟨name, rfl⟩
  · intro h out
    obtain ⟨names, e⟩ := exists_names h
    exact ⟨names, by rw [cleanSteps_join h.isAbsolute_eq, h.foldl_cleanStep, e]⟩

/-! ### File names -/

theorem isName_of_mem_components {name : String} (h : .normal name ∈ p.components) : IsName name := by
  have isName (piece : List Char) (hne : piece ≠ []) (hs : '/' ∉ piece) (e : component piece = .normal name) :
      IsName name := by
    unfold component at e
    split at e
    · cases e
    · rename_i hdot
      split at e
      · cases e
      · rename_i hup
        cases e
        refine ⟨fun k => hne ?_, fun k => hdot ?_, fun k => hup ?_, by rwa [String.toList_ofList]⟩
        all_goals simpa using congrArg String.toList k
  have of_rest (rest : List (List Char)) (hs : ∀ piece ∈ rest, '/' ∉ piece) (h : .normal name ∈ stepsOf rest) :
      IsName name := by
    obtain ⟨piece, hpiece, e⟩ := List.mem_map.1 h
    obtain ⟨hp, hb⟩ := List.mem_filter.1 hpiece
    refine isName piece ?_ (hs piece hp) e
    rintro rfl
    cases hb
  rcases split_eq p with ⟨cs, -, hs⟩ | ⟨ht, -⟩ | ⟨first, rest, hf, -, hp, hs⟩
  · rw [components_of_absolute hs, List.mem_cons] at h
    exact of_rest _ (fun _ => not_mem_of_mem_pieces) (h.resolve_left (by simp))
  · rw [components_of_empty ht] at h
    cases h
  · have no_slash : ∀ piece ∈ first :: rest, '/' ∉ piece := fun piece hpiece => not_mem_of_mem_pieces (hp ▸ hpiece)
    rw [List.forall_mem_cons] at no_slash
    rw [components_of_split hf hs, List.mem_cons] at h
    rcases h with h | h
    · exact isName first hf no_slash.1 h.symm
    · exact of_rest rest no_slash.2 h

private theorem components_of_isName {name : String} (h : IsName name) :
    (⟨name⟩ : Path).components = [.normal name] := by
  have hne : name.toList ≠ [] := fun e => h.1 (String.toList_inj.1 e)
  have e : pieces (⟨name⟩ : Path).text.toList = [name.toList] := by
    have := pieces_joinPieces (List.cons_ne_nil name.toList []) (by simpa using h.2.2.2)
    exact this
  rw [components_of_pieces hne e, Disk.component_toList h]
  rfl

/-- A file name descends. -/
theorem descends_fileName? {name : String} (h : p.fileName? = some name) : Descends (⟨name⟩ : Path).components := by
  have last : p.components.getLast? = some (.normal name) := by
    unfold fileName? at h
    split at h
    · rename_i found e
      cases h
      exact e
    · cases h
  rw [components_of_isName (isName_of_mem_components (List.mem_of_getLast? last))]
  intro step hstep
  exact ⟨name, List.mem_singleton.1 hstep⟩

end ScriptBundler.Path
