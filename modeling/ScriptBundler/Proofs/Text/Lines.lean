import ScriptBundler.SourceMap.Builder

/-!
# Lines of joined texts

`linesOf` are the lines of a text, and `ahead` is what stands in front of a piece when pieces are joined; a text is
itself its lines joined by newlines.

* `intercalate_eq` takes a joined text apart around one piece;
* `getElem?_linesOf` finds the line of a text on which a place is: its number is the number of newlines ahead.
-/

namespace ScriptBundler

open SourceMap (lineCount)

/-- The lines of a text. -/
def linesOf (text : String) : List (List Char) := text.toList.splitOn '\n'

/-- The number of newlines of a text. -/
def newlines (text : String) : Nat := text.toList.count '\n'

/-- What stands in front of the piece at a place when pieces are joined. -/
def ahead (joiner : List Char) (pieces : List (List Char)) (place : Nat) : List Char :=
  (pieces.take place).flatMap (· ++ joiner)

/-- Joined pieces are what stands ahead of one of them, the piece, and some rest. -/
theorem intercalate_eq (joiner : List Char) {pieces : List (List Char)} {place : Nat} {piece : List Char}
    (h : pieces[place]? = some piece) :
    ∃ rest, joiner.intercalate pieces = ahead joiner pieces place ++ piece ++ rest := by
  induction pieces generalizing place with
  | nil => cases h
  | cons first pieces ih =>
    cases place with
    | zero =>
      cases h
      cases pieces with
      | nil => exact ⟨[], by simp [ahead]⟩
      | cons second pieces => exact ⟨joiner ++ joiner.intercalate (second :: pieces), by simp [ahead]⟩
    | succ place =>
      rw [List.getElem?_cons_succ] at h
      obtain ⟨rest, e⟩ := ih h
      have hne : pieces ≠ [] := by
        rintro rfl
        cases h
      refine ⟨rest, ?_⟩
      rw [List.intercalate_cons_of_ne_nil hne, e]
      simp [ahead]

/-! ### Lines -/

private theorem length_splitOn (c : Char) (text : List Char) : (text.splitOn c).length = text.count c + 1 := by
  induction text with
  | nil => rfl
  | cons d text ih =>
    rw [List.splitOn_cons_eq_if_modifyHead, List.count_cons]
    by_cases hd : d = c
    · simp [hd, ih]
    · simp [hd, ih]

private theorem not_mem_of_mem_splitOn {c : Char} {text line : List Char} (h : line ∈ text.splitOn c) : c ∉ line := by
  induction text generalizing line with
  | nil =>
    rw [List.splitOn_nil, List.mem_singleton] at h
    simp [h]
  | cons d text ih =>
    rw [List.splitOn_cons_eq_if_modifyHead] at h
    split at h
    · rcases List.mem_cons.1 h with rfl | hline
      · simp
      · exact ih hline
    · rename_i hd
      obtain ⟨first, rest, e⟩ := List.exists_cons_of_ne_nil (List.splitOn_ne_nil c text)
      rw [e, List.modifyHead_cons, List.mem_cons] at h
      rcases h with rfl | hline
      · rw [List.mem_cons, not_or]
        exact ⟨fun k => hd (beq_iff_eq.2 k.symm), ih (e ▸ List.mem_cons_self)⟩
      · exact ih (e ▸ List.mem_cons_of_mem _ hline)

/-- When more text follows, the last line goes on with the first line of that text. -/
private theorem exists_splitOn_append (c : Char) (text : List Char) :
    ∃ init last, text.splitOn c = init ++ [last] ∧
      ∀ {more first : List Char} {rest : List (List Char)}, more.splitOn c = first :: rest →
        (text ++ more).splitOn c = init ++ (last ++ first) :: rest := by
  induction text with
  | nil => exact ⟨[], [], by simp⟩
  | cons d text ih =>
    obtain ⟨init, last, e, append⟩ := ih
    by_cases hd : d = c
    · subst hd
      refine ⟨[] :: init, last, ?_, fun hm => ?_⟩
      · simp [List.splitOn_cons_eq_if_modifyHead, e]
      · simp [List.splitOn_cons_eq_if_modifyHead, append hm]
    · -- the character joins the first line, which is the last one if there is no other
      cases init with
      | nil =>
        refine ⟨[], d :: last, ?_, fun hm => ?_⟩
        · simp [List.splitOn_cons_eq_if_modifyHead, e, hd]
        · simp [List.splitOn_cons_eq_if_modifyHead, append hm, hd]
      | cons line init =>
        refine ⟨(d :: line) :: init, last, ?_, fun hm => ?_⟩
        · simp [List.splitOn_cons_eq_if_modifyHead, e, hd]
        · simp [List.splitOn_cons_eq_if_modifyHead, append hm, hd]

theorem length_linesOf (text : String) : (linesOf text).length = newlines text + 1 := length_splitOn '\n' text.toList

/-- The lines of a text are as many as are counted, as far as 32 bits go. -/
theorem lineCount_eq (text : String) : lineCount text = (linesOf text).length % UInt32.size := by
  rw [length_linesOf]
  rfl

/-- No line holds a newline. -/
theorem not_mem_of_mem_linesOf {text : String} {line : List Char} (h : line ∈ linesOf text) : '\n' ∉ line :=
  not_mem_of_mem_splitOn h

/-- Ahead of a line stand as many newlines as its number says. -/
theorem count_ahead_linesOf {text : String} {l : Nat} (hl : l ≤ (linesOf text).length) :
    (ahead ['\n'] (linesOf text) l).count '\n' = l := by
  have each : ∀ line ∈ (linesOf text).take l, (List.count '\n' ∘ (· ++ ['\n'])) line = 1 := by
    intro line h
    rw [Function.comp_apply, List.count_append,
      List.count_eq_zero.2 (not_mem_of_mem_linesOf (List.mem_of_mem_take h))]
    rfl
  unfold ahead
  rw [List.count_flatMap, List.map_congr_left each, List.map_const', List.sum_replicate_nat, List.length_take,
    Nat.min_eq_left hl, Nat.mul_one]

/-- A text around one of its lines. -/
theorem text_eq {text : String} {l : Nat} {line : List Char} (h : (linesOf text)[l]? = some line) :
    ∃ rest, text.toList = ahead ['\n'] (linesOf text) l ++ line ++ rest := by
  obtain ⟨rest, e⟩ := intercalate_eq ['\n'] h
  exact ⟨rest, (List.intercalate_splitOn '\n').symm.trans e⟩

/-- What holds no newline stands on the line whose number is the number of newlines in front of it. -/
theorem getElem?_linesOf {text : String} {before line after : List Char} (e : text.toList = before ++ line ++ after)
    (h : '\n' ∉ line) : ∃ left right, (linesOf text)[before.count '\n']? = some (left ++ line ++ right) := by
  obtain ⟨init, last, before_eq, append⟩ := exists_splitOn_append '\n' before
  obtain ⟨init', last', e', append'⟩ := exists_splitOn_append '\n' line
  obtain ⟨first, rest, hs⟩ := List.exists_cons_of_ne_nil (List.splitOn_ne_nil '\n' after)
  rw [List.splitOn_eq_singleton h] at e'
  -- without a newline the text is its only line
  obtain ⟨rfl, rfl⟩ : init' = [] ∧ line = last' := by
    cases init' <;> simp_all
  have init_length : init.length = before.count '\n' := by
    have := length_splitOn '\n' before
    rw [before_eq, List.length_append, List.length_singleton] at this
    omega
  refine ⟨last, first, ?_⟩
  rw [linesOf, e, List.append_assoc, append (append' hs), ← init_length]
  simp

end ScriptBundler
