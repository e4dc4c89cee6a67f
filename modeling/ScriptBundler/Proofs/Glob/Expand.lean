import Mathlib.Data.List.Infix
import ScriptBundler.Glob.Expand
import ScriptBundler.Proofs.Action
import ScriptBundler.Proofs.Path.Clean
import ScriptBundler.Proofs.PathSet

/-!
# Patterns that can be read

Whether something is found for a pattern depends on the disk; whether the pattern is faulty does not (`paths_isOk_iff`).
A text is refused as a pattern if it is faulty and nothing has it for a name (`expandOne_isOk_iff`), for which it needs
a bracket or two stars in a row (`wellFormed_of_plain`).
-/

namespace ScriptBundler

/-- The pieces of a text are parts of it, and the first one stands in front. -/
theorem Path.infix_of_mem_pieces (cs : List Char) :
    (∀ piece ∈ (pieces cs).head?, piece <+: cs) ∧ ∀ piece ∈ pieces cs, piece <:+: cs := by
  induction cs with
  | nil => simp [pieces]
  | cons c cs ih =>
    have later : ∀ piece ∈ pieces cs, piece <:+: c :: cs := fun piece h => (ih.2 piece h).trans (List.suffix_cons c cs).isInfix
    by_cases hc : c = '/'
    · rw [pieces, if_pos hc]
      refine ⟨fun piece h => ?_, fun piece h => ?_⟩
      · cases h
        exact List.nil_prefix
      · rcases List.mem_cons.1 h with rfl | h
        · exact List.nil_infix
        · exact later piece h
    · obtain ⟨first, rest, e, e'⟩ := pieces_cons_of_ne hc cs
      have front : c :: first <+: c :: cs := List.cons_prefix_cons.2 ⟨rfl, ih.1 first (by rw [e]; rfl)⟩
      rw [e']
      refine ⟨fun piece h => ?_, fun piece h => ?_⟩
      · cases h
        exact front
      · rcases List.mem_cons.1 h with rfl | h
        · exact front.isInfix
        · exact later piece (by rw [e]; exact List.mem_cons_of_mem _ h)

namespace Glob

/-! ### Pattern syntax -/

section

open ScriptBundler.Path

/-- A step has pattern syntax if its name has. -/
def stepHasMagic : Component → Bool
  | .normal name => hasMagic name
  | _ => false

private theorem any_pieces (cs : List Char) :
    cs.any (fun c => c = '*' ∨ c = '?' ∨ c = '[') = (pieces cs).any fun piece => hasMagic (String.ofList piece) := by
  simp only [hasMagic, String.toList_ofList]
  induction cs with
  | nil => rfl
  | cons c cs ih =>
    by_cases hc : c = '/'
    · rw [pieces, if_pos hc, List.any_cons, List.any_cons, ← ih, hc]
      simp
    · obtain ⟨first, rest, e, e'⟩ := pieces_cons_of_ne hc cs
      rw [e', List.any_cons, ih, e, List.any_cons, List.any_cons, List.any_cons, Bool.or_assoc]

private theorem any_stepsOf (ps : List (List Char)) :
    (stepsOf ps).any stepHasMagic = ps.any fun piece => hasMagic (String.ofList piece) := by
  induction ps with
  | nil => rfl
  | cons piece ps ih =>
    by_cases hb : blank piece = true
    · rw [stepsOf_cons_of_blank hb, ih, List.any_cons]
      have none : hasMagic (String.ofList piece) = false := by
        rcases (by simpa [blank] using hb : piece = [] ∨ piece = ['.']) with rfl | rfl <;> decide
      rw [none, Bool.false_or]
    · rw [stepsOf_cons (by simpa using hb), List.any_cons, List.any_cons, ih]
      congr 1
      unfold component
      split
      · rename_i h
        subst h
        decide
      · split
        · rename_i h
          subst h
          decide
        · rfl

/-- Pattern syntax is in the steps of a path, so equal paths have it or not. -/
theorem hasMagic_eq (p : Path) : hasMagic p.text = p.components.any stepHasMagic := by
  have steps : (p.components.filter (· ≠ .here)).any stepHasMagic = p.components.any stepHasMagic := by
    rw [List.any_filter]
    congr 1
    funext step
    cases step <;> rfl
  rw [← steps, filter_components, List.any_append, any_stepsOf, ← any_pieces]
  split <;> rfl

end

variable {d : Disk} {pattern : String}

/-! ### Faulty patterns -/

/-- The pieces of a pattern that are matched one after the other. -/
def steps (pattern : String) : List String :=
  pieceTexts (if (⟨pattern⟩ : Path).isAbsolute then String.ofList (pattern.toList.drop 1) else pattern)

/-- Neither the pattern as a whole nor a piece of it is faulty. -/
def WellFormed (pattern : String) : Prop :=
  (parse pattern).isOk = true ∧ ∀ step ∈ steps pattern, (parse step).isOk = true

instance : Decidable (WellFormed pattern) := inferInstanceAs (Decidable (_ ∧ _))

/-- A pattern is read as a whole and then by its pieces, which are looked for from the root or from here. -/
theorem paths_eq : paths d pattern = (do
    let _ ← parse pattern
    let pieces ← (steps pattern).mapM parse
    return (⟨d, pattern.toList.getLast? = some '/'⟩ : Search).below (4 * (longest + pieces.length)) (pieces.map Piece.mk)
      (if (⟨pattern⟩ : Path).isAbsolute then ⟨"/"⟩ else ⟨"."⟩)) := by
  have each (texts : List String) : (texts.mapM fun t => return (⟨← parse t⟩ : Piece)) =
      (texts.mapM parse).map (List.map Piece.mk) := by
    induction texts with
    | nil => rfl
    | cons t texts ih =>
      rw [List.mapM_cons, List.mapM_cons, ih]
      rcases parse t with e | tokens
      · rfl
      · rcases texts.mapM parse with e | rest <;> rfl
  unfold paths
  rcases parse pattern with e | whole
  · rfl
  · show ((steps pattern).mapM _ >>= _) = ((steps pattern).mapM parse >>= _)
    rw [each]
    rcases (steps pattern).mapM parse with e | pieces
    · rfl
    · show Except.ok _ = Except.ok _
      rw [List.length_map]

theorem paths_isOk_iff : (paths d pattern).isOk = true ↔ WellFormed pattern := by
  rw [WellFormed, ← Action.isOk_mapM, paths_eq]
  rcases parse pattern with e | whole
  · simp [bind, Except.bind, Except.isOk, Except.toBool]
  · rcases (steps pattern).mapM parse with e | pieces <;>
      simp [bind, Except.bind, pure, Except.pure, Except.isOk, Except.toBool]

/-- A piece with pattern syntax is compared with all that is in a directory. -/
theorem below_of_sorted {s : Search} {n : Nat} {piece : Piece} {pieces : List Piece} {path : Path} (names : List String)
    (magic : piece.literal? = none) (dot : piece.tokens.head? ≠ some (.char '.')) (hd : s.disk.isDirectory path = true)
    (hn : s.disk.list path = .ok names) (sorted : names.Pairwise fun a b => decide (a ≤ b) = true) :
    s.below (n + 1) (piece :: pieces) path =
      names.flatMap fun name => s.visit n (piece :: pieces) (entry path name) name := by
  rw [Search.below]
  simp only [magic, hd, hn, dot, if_false, List.flatMap_nil, List.nil_append, List.mergeSort_of_pairwise sorted]

/-- A piece that does not stand for directories is compared with the entry itself. -/
private theorem visit_of_single {s : Search} {n : Nat} {piece : Piece} {pieces : List Piece} {path : Path}
    {name : String} (single : piece.isRecursive = false) :
    s.visit (n + 1) (piece :: pieces) path name = s.compare n (piece :: pieces) path name := by
  rw [Search.visit, List.span_eq_takeWhile_dropWhile]
  simp [single]

/-- One piece with pattern syntax finds what is in the root under the names that fit it. -/
theorem paths_of_piece (piece : Piece) (whole : (parse pattern).isOk = true)
    (one : (steps pattern).mapM parse = .ok [piece.tokens]) (absolute : (⟨pattern⟩ : Path).isAbsolute = true)
    (magic : piece.literal? = none) (dot : piece.tokens.head? ≠ some (.char '.')) (single : piece.isRecursive = false) :
    paths d pattern = .ok (((d.namesIn []).mergeSort fun a b => a ≤ b).flatMap fun name =>
      if piece.accepts name then Search.found ⟨d, pattern.toList.getLast? = some '/'⟩ (entry ⟨"/"⟩ name) else []) := by
  obtain ⟨tokens, e⟩ := Action.isOk_iff.1 whole
  have directory : d.isDirectory ⟨"/"⟩ = true := rfl
  have listed : d.list ⟨"/"⟩ = .ok (d.namesIn []) := rfl
  rw [paths_eq, e, one, if_pos absolute]
  show Except.ok (Search.below _ (16387 + 1) [piece] ⟨"/"⟩) = _
  rw [Search.below, magic]
  dsimp only
  rw [directory, listed]
  dsimp only
  rw [if_neg dot, List.flatMap_nil, List.nil_append]
  congr 2
  funext name
  rw [visit_of_single single, Search.compare, List.isEmpty_nil, if_pos rfl]

private theorem read_isOk {done : List Token} {position : Nat} {before : Option Char} {cs : List Char}
    (bracket : '[' ∉ cs) (stars : ¬ ['*', '*'] <:+: cs) : (read done position before cs).isOk = true := by
  have behind {c : Char} {cs : List Char} (bracket : '[' ∉ c :: cs) (stars : ¬ ['*', '*'] <:+: c :: cs) :
      '[' ∉ cs ∧ ¬ ['*', '*'] <:+: cs :=
    ⟨fun h => bracket (List.mem_cons_of_mem _ h), fun h => stars (h.trans (List.suffix_cons c cs).isInfix)⟩
  have two_stars {cs : List Char} : ['*', '*'] <:+: '*' :: '*' :: cs := (List.prefix_append ['*', '*'] cs).isInfix
  -- Only two stars and a bracket are read in a way that can fail.
  fun_induction read done position before cs with
  | case1 => rfl
  | case2 _ _ _ _ ih => exact ih (behind bracket stars).1 (behind bracket stars).2
  | case3 | case4 | case5 | case6 | case7 => exact absurd two_stars stars
  | case8 _ _ _ _ _ _ ih => exact ih (behind bracket stars).1 (behind bracket stars).2
  | case9 | case10 => exact absurd List.mem_cons_self bracket
  | case11 _ _ _ _ _ _ _ _ _ _ ih => exact ih (behind bracket stars).1 (behind bracket stars).2

/-- Only a text with a bracket or with two stars in a row can be a faulty pattern. -/
theorem wellFormed_of_plain (bracket : '[' ∉ pattern.toList) (stars : ¬ ['*', '*'] <:+: pattern.toList) :
    WellFormed pattern := by
  have inside {cs : List Char} (h : cs <:+: pattern.toList) : (parse (String.ofList cs)).isOk = true := by
    rw [parse, String.toList_ofList]
    exact read_isOk (fun hb => bracket (h.mem hb)) fun hs => stars (hs.trans h)
  refine ⟨by simpa using inside (List.infix_refl _), fun step h => ?_⟩
  have of_texts {text : String} (part : text.toList <:+: pattern.toList) (h : step ∈ pieceTexts text) :
      (parse step).isOk = true := by
    have mem : step ∈ (Path.pieces text.toList).map String.ofList := by
      dsimp only [pieceTexts] at h
      split at h
      · exact List.mem_of_mem_dropLast h
      · exact h
    obtain ⟨piece, hp, rfl⟩ := List.mem_map.1 mem
    exact inside (((Path.infix_of_mem_pieces _).2 piece hp).trans part)
  unfold steps at h
  split at h
  · exact of_texts (by rw [String.toList_ofList]; exact (List.drop_suffix 1 _).isInfix) h
  · exact of_texts (List.infix_refl _) h

/-! ### Texts that can be expanded -/

/-- The text can be expanded: it has no pattern syntax, is the name of something, or is no faulty pattern. -/
def Readable (d : Disk) (text : String) : Prop :=
  ¬ hasMagic text = true ∨ d.exists ⟨text⟩ = true ∨ WellFormed text

instance : Decidable (Readable d pattern) := inferInstanceAs (Decidable (_ ∨ _ ∨ _))

theorem expandOne_isOk_iff : (expandOne d pattern).isOk = true ↔ Readable d pattern := by
  rw [Readable, ← or_assoc, expandOne]
  split
  · rename_i h
    exact iff_of_true rfl (.inl h)
  · rename_i h
    rw [← paths_isOk_iff (d := d)]
    simp only [h, false_or]
    split <;> simp_all [Except.isOk, Except.toBool]

/-- Adds to a set what a pattern stands for. -/
def expandInto (d : Disk) (found : PathSet) (pattern : String) : Except (String × PatternError) PathSet :=
  match expandOne d pattern with
  | .error e => .error (pattern, e)
  | .ok ps => .ok (found.insertAll ps)

private theorem expand_eq {patterns : List String} : expand d patterns = patterns.foldlM (expandInto d) .empty := rfl

private theorem expandInto_eq_ok {before found : PathSet} :
    expandInto d before pattern = .ok found ↔ ∃ ps, expandOne d pattern = .ok ps ∧ before.insertAll ps = found := by
  unfold expandInto
  cases expandOne d pattern <;> simp

theorem expand_single : expand d [pattern] = match expandOne d pattern with
    | .error e => .error (pattern, e)
    | .ok ps => .ok (PathSet.empty.insertAll ps) := by
  rw [expand_eq, List.foldlM_cons]
  unfold expandInto
  cases expandOne d pattern <;> rfl

/-- Texts that come to one path each are expanded to these paths. -/
theorem expand_map {α : Type} {xs : List α} {text : α → String} {path : α → Path}
    (h : ∀ x ∈ xs, expandOne d (text x) = .ok [path x]) : expand d (xs.map text) = .ok (.ofList (xs.map path)) := by
  rw [expand_eq, PathSet.ofList]
  generalize PathSet.empty = found
  induction xs generalizing found with
  | nil => rfl
  | cons x xs ih =>
    rw [List.forall_mem_cons] at h
    rw [List.map_cons, List.foldlM_cons, expandInto_eq_ok.2 ⟨_, h.1, rfl⟩]
    exact ih h.2 _

private theorem expand_concat {patterns : List String} {found : PathSet} : expand d (patterns ++ [pattern]) = .ok found ↔
    ∃ before ps, expand d patterns = .ok before ∧ expandOne d pattern = .ok ps ∧ before.insertAll ps = found := by
  rw [expand_eq, expand_eq, List.foldlM_append, Action.bind_eq_ok]
  simp only [List.foldlM_cons, List.foldlM_nil, bind_pure, expandInto_eq_ok, exists_and_left]

/-- What is in an expansion comes from one of the patterns. -/
theorem mem_of_expand {patterns : List String} {found : PathSet} {p : Path} (h : expand d patterns = .ok found)
    (hp : p ∈ found.toList) : ∃ pattern ∈ patterns, ∃ ps, expandOne d pattern = .ok ps ∧ p ∈ ps := by
  induction patterns using List.reverseRecOn generalizing found with
  | nil =>
    cases h
    cases hp
  | append_singleton patterns pattern ih =>
    obtain ⟨before, ps, front, one, rfl⟩ := expand_concat.1 h
    rcases PathSet.mem_of_mem_insertAll hp with mem | mem
    · obtain ⟨other, named, rest⟩ := ih front mem
      exact ⟨other, List.mem_append_left _ named, rest⟩
    · exact ⟨pattern, List.mem_append_right _ (List.mem_singleton.2 rfl), ps, one, mem⟩

end Glob

end ScriptBundler
