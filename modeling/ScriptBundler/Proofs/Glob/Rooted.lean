import ScriptBundler.Proofs.Glob.Anchor
import ScriptBundler.Proofs.Glob.Spelled

/-!
# Patterns seen from a root

A pattern that is anchored at a root is looked up piece by piece from the top: the pieces of the root, which has no pattern
syntax, lead to the root (`below_names`), and from there the pieces of the pattern go on (`steps_anchor`). So patterns that
are anchored at two roots that look alike stand for twins, or are faulty for both (`expandOne_alike`, `expand_alike`). All
routes that a pattern without dots spells come to names (`Spelled.comesTo`).
-/

namespace ScriptBundler.Glob

open ScriptBundler.Path (IsRoute Twin joinPieces ComesTo)
open Disk (IsName pathOf)

variable {d : Disk} {p q t : Path} {k l : Location} {T : List String → Prop} {pattern : String} {name : String}
  {pieces : List Piece} {only : Bool} {n m : Nat} {names route : List String}

/-! ### Pieces behind a root -/

private theorem opening_pathOf (h : ∀ name ∈ k, IsName name) :
    (pathOf k).opening = '/' :: k.flatMap fun name => name.toList ++ ['/'] := by
  have closed (names : List String) (hne : names ≠ []) :
      joinPieces (names.map String.toList) ++ ['/'] = names.flatMap fun name => name.toList ++ ['/'] := by
    induction names with
    | nil => exact absurd rfl hne
    | cons name names ih =>
      cases names with
      | nil => simp [joinPieces]
      | cons next names =>
        have ih := ih (List.cons_ne_nil _ _)
        simp only [List.map_cons, joinPieces, List.flatMap_cons, List.append_assoc, List.cons_append, List.nil_append] at ih ⊢
        rw [ih]
  by_cases root : k = []
  · rw [root]
    rfl
  · rw [Path.opening, if_neg (Disk.getLast?_pathOf h root), Disk.toList_pathOf, List.cons_append, closed k root]

private theorem pieces_ne_nil (cs : List Char) : Path.pieces cs ≠ [] := by
  cases cs with
  | nil => exact List.cons_ne_nil _ _
  | cons c cs =>
    by_cases slash : c = '/'
    · simp [Path.pieces, slash]
    · obtain ⟨first, rest, -, e⟩ := Path.pieces_cons_of_ne slash cs
      simp [e]

private theorem pieces_flatMap (h : ∀ name ∈ k, IsName name) (cs : List Char) :
    Path.pieces ((k.flatMap fun name => name.toList ++ ['/']) ++ cs) = k.map String.toList ++ Path.pieces cs := by
  induction k with
  | nil => rfl
  | cons name k ih =>
    rw [List.forall_mem_cons] at h
    have alone : Path.pieces name.toList = [name.toList] :=
      Path.pieces_of_names (by simpa using h.1) (List.cons_ne_nil name [])
    rw [List.flatMap_cons, List.append_assoc, List.append_assoc, List.singleton_append, Path.pieces_append_slash, alone, ih h.2]
    rfl

/-- The pieces of an anchored pattern are the names of the root and its own pieces. -/
theorem steps_anchor (h : ∀ name ∈ k, IsName name) (ht : t.isAbsolute = false) :
    steps ((pathOf k).join t).text = k ++ pieceTexts t.text := by
  have absolute : (⟨((pathOf k).join t).text⟩ : Path).isAbsolute = true := by
    rw [Path.isAbsolute, Path.toList_join_of_relative (Disk.text_pathOf_ne k) ht, opening_pathOf h]
    rfl
  have whole : (Path.pieces (((pathOf k).join t).text.toList.drop 1)).map String.ofList =
      k ++ (Path.pieces t.text.toList).map String.ofList := by
    rw [Path.toList_join_of_relative (Disk.text_pathOf_ne k) ht, opening_pathOf h, List.cons_append, List.drop_one,
      List.tail_cons, pieces_flatMap h, List.map_append, List.map_map]
    simp
  have last : (k ++ (Path.pieces t.text.toList).map String.ofList).getLast? =
      ((Path.pieces t.text.toList).map String.ofList).getLast? :=
    List.getLast?_append_of_ne_nil _ (by simpa using pieces_ne_nil _)
  rw [steps, if_pos absolute, pieceTexts, String.toList_ofList, whole, last, pieceTexts]
  split
  · rw [List.dropLast_append_of_ne_nil (by simpa using pieces_ne_nil _)]
  · rfl

/-! ### Searching from the top -/

/-- The piece that is read for a name without pattern syntax. -/
def namePiece (name : String) : Piece := ⟨name.toList.map .char⟩

private theorem literal?_namePiece : (namePiece name).literal? = some name := by
  have each (cs : List Char) : (cs.map Token.char).mapM Piece.literal?.character? = some cs := by
    induction cs with
    | nil => rfl
    | cons c cs ih => simp [ih, Piece.literal?.character?]
  rw [Piece.literal?, namePiece, each, Option.map_some, String.ofList_toList]

private theorem parse_plain (h : ∀ c ∈ name.toList, c ≠ '*' ∧ c ≠ '?' ∧ c ≠ '[') :
    parse name = .ok (name.toList.map .char) := by
  have each (cs : List Char) (h : ∀ c ∈ cs, c ≠ '*' ∧ c ≠ '?' ∧ c ≠ '[') (done : List Token) (n : Nat)
      (before : Option Char) : read done n before cs = .ok (done ++ cs.map .char) := by
    induction cs generalizing done n before with
    | nil => simp [read]
    | cons c cs ih =>
      rw [List.forall_mem_cons] at h
      rw [read_plain h.1, ih h.2]
      simp [push]
  exact each _ h [] 0 none

/-- The names of what stands in directories lead to it. -/
theorem below_names (n : Nat) (hne : pieces ≠ []) (h : d.Standing (k ++ names)) :
    (⟨d, only⟩ : Search).below (n + 2 * names.length) (names.map namePiece ++ pieces) (pathOf k) =
      (⟨d, only⟩ : Search).below n pieces (pathOf (k ++ names)) := by
  induction names generalizing k with
  | nil => simp
  | cons name names ih =>
    rw [List.append_cons] at h ⊢
    have first := h.mono (List.prefix_append (k ++ [name]) names)
    obtain ⟨above, last⟩ := List.forall_mem_append.1 first.named
    have named : IsName name := last name List.mem_cons_self
    rw [← ih h, List.map_cons, List.length_cons, List.cons_append,
      show n + 2 * (names.length + 1) = n + 2 * names.length + 1 + 1 by omega, Search.below, literal?_namePiece]
    dsimp only
    rw [if_neg (not_or.2 ⟨named.2.1, named.2.2.1⟩), entry_pathOf above named, first.isNamed, if_pos rfl]
    rw [Search.onward]
    simpa using fun _ => hne

/-! ### Finding and expanding -/

/-- A route that a pattern spells: the pattern itself, which may be a name, or what its pieces spell. -/
def Spelled (pattern : String) (route : List String) : Prop :=
  route = [pattern] ∨ ∃ tokens, (pieceTexts pattern).mapM parse = .ok tokens ∧ Spells (tokens.map Piece.mk) route

private theorem eq_nil_of_pieces {cs : List Char} (h : Path.pieces cs = [[]]) : cs = [] := by
  cases cs with
  | nil => rfl
  | cons c cs =>
    by_cases slash : c = '/'
    · rw [Path.pieces, if_pos slash, List.cons.injEq] at h
      exact absurd h.2 (pieces_ne_nil cs)
    · obtain ⟨first, rest, -, e⟩ := Path.pieces_cons_of_ne slash cs
      simp [e] at h

private theorem pieceTexts_ne_nil {text : String} (h : text ≠ "") : pieceTexts text ≠ [] := by
  intro none
  dsimp only [pieceTexts] at none
  split at none
  · rename_i last
    have one : (Path.pieces text.toList).length = 1 := by
      have length := congrArg List.length none
      have some_piece := List.length_pos_of_ne_nil (pieces_ne_nil text.toList)
      simp only [List.length_dropLast, List.length_map, List.length_nil] at length
      omega
    obtain ⟨piece, alone⟩ := List.length_eq_one_iff.1 one
    rw [alone] at last
    have empty : piece = [] := by simpa using last
    rw [empty] at alone
    exact h (String.toList_inj.1 (eq_nil_of_pieces alone))
  · exact pieces_ne_nil text.toList (List.map_eq_nil_iff.1 none)

/-- An anchored pattern is looked for from the root on. -/
private theorem paths_anchor (hk : d.Standing k) (plain : Plain (pathOf k)) (ht : (⟨pattern⟩ : Path).isAbsolute = false)
    (hne : pattern ≠ "") : paths d ((pathOf k).join ⟨pattern⟩).text = (do
      let _ ← parse ((pathOf k).join ⟨pattern⟩).text
      let tokens ← (pieceTexts pattern).mapM parse
      return (⟨d, pattern.toList.getLast? = some '/'⟩ : Search).below (4 * (longest + tokens.length) + 2 * k.length)
        (tokens.map Piece.mk) (pathOf k)) := by
  have absolute : (⟨((pathOf k).join ⟨pattern⟩).text⟩ : Path).isAbsolute = true := by
    rw [Path.isAbsolute, Path.toList_join_of_relative (Disk.text_pathOf_ne k) ht, opening_pathOf hk.named]
    rfl
  have last : ((pathOf k).join ⟨pattern⟩).text.toList.getLast? = pattern.toList.getLast? := by
    rw [Path.toList_join_of_relative (Disk.text_pathOf_ne k) ht]
    exact List.getLast?_append_of_ne_nil _ fun e => hne (String.toList_inj.1 e)
  have names_eq : k.mapM parse = .ok (k.map fun name => name.toList.map .char) := by
    have each : ∀ name ∈ k, parse name = .ok (name.toList.map .char) := fun name hname =>
      parse_plain fun c hc => plain.opening c (by
        rw [opening_pathOf hk.named]
        exact List.mem_cons_of_mem _ (List.mem_flatMap.2 ⟨name, hname, List.mem_append_left _ hc⟩))
    clear hk plain absolute last
    induction k with
    | nil => rfl
    | cons name k ih =>
      rw [List.forall_mem_cons] at each
      rw [List.mapM_cons, each.1, ih each.2]
      rfl
  rw [paths_eq, steps_anchor hk.named ht, List.mapM_append, names_eq, if_pos absolute, last]
  rcases parse ((pathOf k).join ⟨pattern⟩).text with e | whole
  · rfl
  rcases read : (pieceTexts pattern).mapM parse with e | tokens
  · rfl
  · have some_tokens : tokens.map Piece.mk ≠ [] := by
      obtain ⟨first, rest, e⟩ := List.exists_cons_of_ne_nil (pieceTexts_ne_nil hne)
      rw [e, List.mapM_cons] at read
      obtain ⟨piece, -, read⟩ := Action.bind_eq_ok.1 read
      obtain ⟨pieces, -, read⟩ := Action.bind_eq_ok.1 read
      cases read
      exact List.cons_ne_nil _ _
    have below : (⟨d, pattern.toList.getLast? = some '/'⟩ : Search).below _ (k.map namePiece ++ _) (pathOf []) = _ :=
      below_names (4 * (longest + tokens.length) + 2 * k.length) some_tokens (by simpa using hk)
    show Except.ok (Search.below _ _ _ _) = Except.ok (Search.below _ _ _ _)
    have bound : 4 * (longest + (k.length + tokens.length)) = 4 * (longest + tokens.length) + 2 * k.length + 2 * k.length := by
      omega
    rw [List.nil_append] at below
    rw [List.length_append, List.map_append, List.map_map, List.length_map, bound, ← below]
    rfl

section

variable (hd : d.Regular) (hk : d.Standing k) (hl : d.Standing l) (plain : Plain (pathOf k)) (plain' : Plain (pathOf l))
  (h : d.Alike (pathOf k) (pathOf l) T)
include hd hk hl plain plain' h

/-- A pattern finds twins below both roots, or is faulty below both. -/
private theorem paths_alike (spelled : ∀ route, Spelled pattern route → T route) (hne : pattern ≠ "") :
    Agree (List.Forall₂ (Twin (pathOf k) (pathOf l) T)) (paths d ((pathOf k).join ⟨pattern⟩).text)
      (paths d ((pathOf l).join ⟨pattern⟩).text) := by
  have relative : (⟨pattern⟩ : Path).isAbsolute = false := h.isRoute _ (spelled _ (.inl rfl)) pattern (by simp)
  have read := parse_anchor plain plain' (Disk.text_pathOf_ne k) (Disk.text_pathOf_ne l) relative
  rw [paths_anchor hk plain relative hne, paths_anchor hl plain' relative hne]
  generalize parse ((pathOf k).join ⟨pattern⟩).text = r, parse ((pathOf l).join ⟨pattern⟩).text = r' at read
  cases read with
  | error => exact .error
  | ok =>
    rcases tokens_eq : (pieceTexts pattern).mapM parse with e | tokens
    · exact .error
    · have found : FindsTwins d (pattern.toList.getLast? = some '/') (pathOf k) (pathOf l) T (tokens.map Piece.mk) [] :=
        below_alike hd h (Disk.direct_pathOf hk.named).absolute (Disk.direct_pathOf hl.named).absolute
          fun route spells => spelled route (.inr ⟨tokens, tokens_eq, spells⟩)
      refine .ok (found _ _ ?_ ?_)
      all_goals
        unfold need longest
        rw [List.length_map]
        omega

theorem expandOne_alike (spelled : ∀ route, Spelled pattern route → T route) :
    Agree (List.Forall₂ (Twin (pathOf k) (pathOf l) T)) (expandOne d ((pathOf k).join ⟨pattern⟩).text)
      (expandOne d ((pathOf l).join ⟨pattern⟩).text) := by
  have whole : T [pattern] := spelled _ (.inl rfl)
  have relative : (⟨pattern⟩ : Path).isAbsolute = false := h.isRoute _ whole pattern (by simp)
  have anchored (p : Path) : (⟨(p.join ⟨pattern⟩).text⟩ : Path) = p.under [pattern] := rfl
  have itself : List.Forall₂ (Twin (pathOf k) (pathOf l) T) [(pathOf k).under [pattern]] [(pathOf l).under [pattern]] :=
    .cons ⟨[pattern], whole, List.cons_ne_nil _ _, rfl, rfl⟩ .nil
  unfold expandOne
  rw [hasMagic_anchor plain (Disk.text_pathOf_ne k) relative, hasMagic_anchor plain' (Disk.text_pathOf_ne l) relative,
    anchored, anchored, h.exists whole]
  split
  · exact .ok itself
  · rename_i magic
    have hne : pattern ≠ "" := by
      rintro rfl
      exact magic (.inl (by decide))
    have found := paths_alike hd hk hl plain plain' h spelled hne
    generalize paths d ((pathOf k).join ⟨pattern⟩).text = r, paths d ((pathOf l).join ⟨pattern⟩).text = r' at found
    cases found with
    | error => exact .error
    | ok twins =>
      cases twins with
      | nil => exact .ok itself
      | cons first rest => exact .ok (.cons first rest)

/-- Patterns that are anchored at both roots stand for twins, or one of them is faulty below both. -/
theorem expand_alike {patterns : List String} (spelled : ∀ pattern ∈ patterns, ∀ route, Spelled pattern route → T route) :
    Agree (PathSet.Related (Twin (pathOf k) (pathOf l) T))
      (expand d (patterns.map fun pattern => ((pathOf k).join ⟨pattern⟩).text))
      (expand d (patterns.map fun pattern => ((pathOf l).join ⟨pattern⟩).text)) := by
  have matching : Path.Matching (Twin (pathOf k) (pathOf l) T) := fun _ _ _ _ =>
    Twin.beq h (Disk.text_pathOf_ne k) (Disk.text_pathOf_ne l)
  have from_sets (s s' : PathSet) (hs : s.Related (Twin (pathOf k) (pathOf l) T) s') :
      Agree (PathSet.Related (Twin (pathOf k) (pathOf l) T))
        ((patterns.map fun pattern => ((pathOf k).join ⟨pattern⟩).text).foldlM (expandInto d) s)
        ((patterns.map fun pattern => ((pathOf l).join ⟨pattern⟩).text).foldlM (expandInto d) s') := by
    induction patterns generalizing s s' with
    | nil => exact .ok hs
    | cons pattern patterns ih =>
      rw [List.forall_mem_cons] at spelled
      rw [List.map_cons, List.map_cons, List.foldlM_cons, List.foldlM_cons, expandInto, expandInto]
      have one := expandOne_alike hd hk hl plain plain' h spelled.1
      generalize expandOne d ((pathOf k).join ⟨pattern⟩).text = r, expandOne d ((pathOf l).join ⟨pattern⟩).text = r' at one
      cases one with
      | error => exact .error
      | ok twins => exact ih spelled.2 _ _ (matching.insertAll hs twins)
  exact from_sets .empty .empty .nil

end

/-! ### Patterns that do not climb -/

/-- A piece that leads to names only, and not to dots. -/
def Piece.Proper (piece : Piece) : Prop := (∀ name ∈ piece.literal?, IsName name) ∧
  (piece.tokens.head? = some (.char '.') → ∀ name ∈ ["..", "."], ¬ piece.accepts name = true)

instance : DecidablePred Piece.Proper := fun _ => inferInstanceAs (Decidable (_ ∧ (_ → _)))

private theorem Spells.isName (h : Spells pieces route) (proper : ∀ piece ∈ pieces, piece.Proper) :
    ∀ name ∈ route, IsName name := by
  induction h with
  | here => simp
  | literal literal _ ih =>
    rw [List.forall_mem_cons] at proper ⊢
    exact ⟨proper.1.1 _ literal, ih proper.2⟩
  | special dot hn fits =>
    rw [List.forall_mem_cons] at proper
    exact absurd fits (proper.1.2 dot _ (by simpa using hn))
  | fitting hn _ _ ih =>
    rw [List.forall_mem_cons] at proper ⊢
    exact ⟨hn, ih proper.2⟩
  | skipped _ _ ih =>
    rw [List.forall_mem_cons] at proper
    exact ih proper.2
  | deeper _ hn _ ih =>
    rw [List.forall_mem_cons]
    exact ⟨hn, ih proper⟩

private theorem joinPieces_pieces (cs : List Char) : joinPieces (Path.pieces cs) = cs := by
  induction cs with
  | nil => rfl
  | cons c cs ih =>
    by_cases slash : c = '/'
    · obtain ⟨first, rest, e⟩ := List.exists_cons_of_ne_nil (pieces_ne_nil cs)
      rw [e] at ih
      rw [Path.pieces, if_pos slash, e, joinPieces, ih, slash, List.nil_append]
    · obtain ⟨first, rest, e, e'⟩ := Path.pieces_cons_of_ne slash cs
      rw [e] at ih
      rw [e']
      cases rest with
      | nil => exact congrArg (c :: ·) ih
      | cons next rest => exact congrArg (c :: ·) ih

/-- A pattern that is a path of names, and whose pieces lead to names only. -/
def Descending (pattern : String) : Prop := (∀ text ∈ (Path.pieces pattern.toList).map String.ofList, IsName text) ∧
  ∀ tokens ∈ ((pieceTexts pattern).mapM parse).toOption, ∀ piece ∈ tokens.map Piece.mk, piece.Proper

instance : DecidablePred Descending := fun _ => inferInstanceAs (Decidable (_ ∧ _))

theorem Spelled.comesTo (h : Spelled pattern route) (descending : Descending pattern) : ∃ names, ComesTo route names := by
  rcases h with rfl | ⟨tokens, read, spells⟩
  · refine ⟨(Path.pieces pattern.toList).map String.ofList, ?_⟩
    have spelled := ComesTo.joined descending.1 (by simpa using pieces_ne_nil _)
    rwa [List.map_map, show String.toList ∘ String.ofList = id from funext fun cs => String.toList_ofList, List.map_id,
      joinPieces_pieces, String.ofList_toList] at spelled
  · exact ⟨route, .of_names (spells.isName (descending.2 tokens (by rw [read]; rfl)))⟩

end ScriptBundler.Glob
