import ScriptBundler.Ignore.Scope
import ScriptBundler.Proofs.Glob.Expand
import ScriptBundler.Proofs.Path.Under

/-!
# Paths as directories see them

The rules of a directory are matched against the names that lead from it to an entry, however the directory is spelled
(`Level.seen_under`). Only a second dot in front is not taken off, so the root of a walk is to have one at most
(`HereOnce`).
-/

namespace ScriptBundler.Ignore

open Disk (IsName)
open ScriptBundler.Path (joinPieces pieces)

variable {p : Path} {cs ds : List Char} {name : String} {names : List String}

/-! ### What stands in front -/

private theorem behind?_append {α : Type} [BEq α] [LawfulBEq α] (front rest : List α) :
    behind? front (front ++ rest) = some rest := by
  rw [behind?, if_pos (List.isPrefixOf_iff_prefix.2 (List.prefix_append _ _)), List.drop_left]

private theorem withoutHere_of_not_prefix (h : ¬ ['.', '/'] <+: cs) : withoutHere cs = cs := by
  rw [withoutHere, behind?, if_neg (mt List.isPrefixOf_iff_prefix.1 h)]
  rfl

private theorem withoutHere_cases (cs : List Char) :
    cs = '.' :: '/' :: withoutHere cs ∨ (¬ ['.', '/'] <+: cs ∧ withoutHere cs = cs) := by
  by_cases h : ['.', '/'] <+: cs
  · obtain ⟨rest, rfl⟩ := h
    exact .inl rfl
  · exact .inr ⟨h, withoutHere_of_not_prefix h⟩

/-- What ends in a slash is told by itself. -/
private theorem withoutHere_append (h : cs.getLast? = some '/') : withoutHere (cs ++ ds) = withoutHere cs ++ ds := by
  rcases withoutHere_cases cs with e | ⟨other, e⟩
  · conv => lhs; rw [e]
    rfl
  · rw [e]
    refine withoutHere_of_not_prefix fun front => other ?_
    match cs, h with
    | [c], h =>
      rw [List.getLast?_singleton, Option.some_inj] at h
      subst h
      exact absurd (List.cons_prefix_cons.1 front).1 (by decide)
    | a :: b :: cs, _ => simpa using front

private theorem getLast?_withoutHere (h : cs.getLast? = some '/') :
    withoutHere cs = [] ∨ (withoutHere cs).getLast? = some '/' := by
  rcases withoutHere_cases cs with e | ⟨-, e⟩
  · rcases hw : withoutHere cs with _ | ⟨c, rest⟩
    · exact .inl rfl
    · rw [e, hw] at h
      exact .inr (by simpa using h)
  · rw [e]
    exact .inr h

/-- A text whose first piece is not a dot begins with no dot and slash. -/
private theorem not_here_of_pieces {first : List Char} {rest : List (List Char)} (h : pieces cs = first :: rest)
    (other : first ≠ ['.']) : ¬ ['.', '/'] <+: cs := by
  rintro ⟨back, rfl⟩
  have split_eq : pieces ('.' :: '/' :: back) = ['.'] :: pieces back := by
    rw [pieces, if_neg (by decide), pieces, if_pos rfl]
  exact other (List.cons.inj ((split_eq.symm.trans h))).1.symm

private theorem not_here_of_names (h : ∀ name ∈ names, IsName name) :
    ¬ ['.', '/'] <+: joinPieces (names.map String.toList) := by
  cases names with
  | nil => simp [joinPieces]
  | cons name names =>
    exact not_here_of_pieces (Path.pieces_of_names h (List.cons_ne_nil _ _)) fun e =>
      (h name List.mem_cons_self).2.1 (String.toList_inj.1 e)

private theorem withoutSlash_names (h : ∀ name ∈ names, IsName name) :
    withoutSlash (joinPieces (names.map String.toList)) = joinPieces (names.map String.toList) := by
  have other : ¬ ['/'] <+: joinPieces (names.map String.toList) := by
    cases names with
    | nil => simp [joinPieces]
    | cons name names =>
      rintro ⟨back, e⟩
      have pieces_eq := Path.pieces_of_names h (List.cons_ne_nil _ _)
      rw [← e, List.singleton_append, pieces, if_pos rfl, List.map_cons] at pieces_eq
      exact (h name List.mem_cons_self).1 (String.toList_inj.1 (List.cons.inj pieces_eq).1.symm)
  rw [withoutSlash, behind?, if_neg (mt List.isPrefixOf_iff_prefix.1 other)]
  rfl

/-- A path of a single dot is spelled so, or begins with a dot and a slash. -/
private theorem eq_or_here_of_beq (h : ((⟨String.ofList cs⟩ : Path) == ⟨"."⟩) = true) :
    cs = ['.'] ∨ ['.', '/'] <+: cs := by
  rw [Path.beq_iff] at h
  have steps : (⟨"."⟩ : Path).components = [.here] := by decide
  rw [steps] at h
  rcases Path.split_eq ⟨String.ofList cs⟩ with ⟨back, -, hs⟩ | ⟨empty, -⟩ | ⟨first, rest, hf, -, hp, -⟩
  · rw [Path.components_of_absolute hs] at h
    cases h
  · rw [Path.components_of_empty empty] at h
    cases h
  · rw [Path.components_of_pieces hf hp, List.cons.injEq] at h
    rw [String.toList_ofList] at hp
    have dot : first = ['.'] := by
      have e := h.1
      unfold Path.component at e
      split at e
      · assumption
      · split at e <;> cases e
    subst dot
    obtain ⟨back, rfl⟩ : ['.'] <+: cs := (Path.infix_of_mem_pieces cs).1 _ (by rw [hp]; rfl)
    rcases back with _ | ⟨c, back⟩
    · exact .inl rfl
    · by_cases slash : c = '/'
      · subst slash
        exact .inr (List.prefix_append ['.', '/'] back)
      · obtain ⟨piece, pieces', -, e⟩ := Path.pieces_cons_of_ne slash back
        rw [List.singleton_append, pieces, if_neg (by decide), e] at hp
        cases hp

/-! ### Roots -/

/-- At most one dot and slash stand in front. -/
def HereOnce (p : Path) : Prop := withoutHere (withoutHere p.opening) = withoutHere p.opening

instance : Decidable (HereOnce p) := inferInstanceAs (Decidable (_ = _))

private theorem getLast?_opening (p : Path) : p.opening.getLast? = some '/' := by
  unfold Path.opening
  split
  · assumption
  · exact List.getLast?_concat

namespace HereOnce

/-- Then a path is told behind the dot, whatever is done to it again. -/
private theorem withoutHere_twice (h : HereOnce p) (hd : ¬ ['.', '/'] <+: ds) :
    withoutHere (withoutHere (p.opening ++ ds)) = withoutHere p.opening ++ ds := by
  rw [withoutHere_append (getLast?_opening p)]
  rcases getLast?_withoutHere (getLast?_opening p) with e | e
  · rw [e]
    exact withoutHere_of_not_prefix hd
  · rw [withoutHere_append e, h]

private theorem join (h : HereOnce p) (hp : p.text ≠ "") (hn : IsName name) : HereOnce (p.join ⟨name⟩) := by
  have other : ¬ ['.', '/'] <+: name.toList ++ ['/'] := by
    have pieces_eq : pieces (name.toList ++ ['/']) = name.toList :: [[]] := by
      have alone := Path.pieces_of_names (show ∀ n ∈ [name], IsName n by simpa using hn) (List.cons_ne_nil _ _)
      have alone : pieces name.toList = [name.toList] := alone
      rw [Path.pieces_append_slash, alone]
      rfl
    exact not_here_of_pieces pieces_eq fun e => hn.2.1 (String.toList_inj.1 e)
  rw [HereOnce, Path.opening_join hp hn, List.append_assoc, h.withoutHere_twice other,
    withoutHere_append (getLast?_opening p)]

theorem under (h : HereOnce p) (hp : p.text ≠ "") (hn : ∀ name ∈ names, IsName name) : HereOnce (p.under names) := by
  induction names generalizing p with
  | nil => exact h
  | cons name names ih =>
    rw [List.forall_mem_cons] at hn
    exact ih (h.join hp hn.1) (Path.text_join_ne hp hn.1) hn.2

/-- The spelling of a directory is what stands in front of the names below it, up to a slash or a dot. -/
private theorem directory_cases (h : HereOnce p) (hp : p.text ≠ "") :
    (withoutHere p.text.toList = ['.'] ∧ withoutHere p.opening = []) ∨
    (withoutHere p.text.toList ≠ ['.'] ∧ (withoutHere p.opening = withoutHere p.text.toList ∨
      withoutHere p.opening = withoutHere p.text.toList ++ ['/'])) := by
  by_cases slash : p.text.toList.getLast? = some '/'
  · have opens : p.opening = p.text.toList := if_pos slash
    rw [opens]
    refine .inr ⟨fun dot => ?_, .inl rfl⟩
    rcases getLast?_withoutHere slash with e | e
    · rw [e] at dot
      cases dot
    · rw [dot] at e
      cases e
  have opens : p.opening = p.text.toList ++ ['/'] := if_neg slash
  by_cases dot : p.text.toList = ['.']
  · rw [opens, dot]
    exact .inl ⟨rfl, rfl⟩
  -- The slash behind the spelling makes no difference unless the spelling is a dot.
  have same : withoutHere p.opening = withoutHere p.text.toList ++ ['/'] := by
    rw [opens]
    rcases withoutHere_cases p.text.toList with e | ⟨other, e⟩
    · conv => lhs; rw [e]
      rfl
    · rw [e]
      refine withoutHere_of_not_prefix fun front => ?_
      rcases cs : p.text.toList with _ | ⟨a, _ | ⟨b, back⟩⟩
      · exact hp (String.toList_inj.1 cs)
      · rw [cs] at front dot
        exact dot (congrArg (· :: []) (List.cons_prefix_cons.1 front).1.symm)
      · rw [cs] at front other
        exact other (by simpa using front)
  refine .inr ⟨fun e => ?_, .inr same⟩
  have twice : withoutHere ['.', '/'] = ['.', '/'] := by
    have h := h
    rwa [HereOnce, same, e] at h
  cases twice

/-- A directory whose spelling behind the dot is no dot is not the one of a single dot. -/
private theorem not_here (h : HereOnce p) (hp : p.text ≠ "") (other : withoutHere p.text.toList ≠ ['.']) :
    ¬ ((⟨String.ofList (withoutHere p.text.toList)⟩ : Path) == ⟨"."⟩) = true := fun here => by
  have front : ['.', '/'] <+: withoutHere p.opening := by
    have front := (eq_or_here_of_beq here).resolve_left other
    rcases h.directory_cases hp with ⟨dot, -⟩ | ⟨-, e | e⟩
    · exact absurd dot other
    · rwa [e]
    · rw [e]
      exact front.trans (List.prefix_append _ _)
  obtain ⟨back, e⟩ := front
  have once := h
  rw [HereOnce, ← e] at once
  have once : back = '.' :: '/' :: back := once
  have longer := congrArg List.length once
  simp only [List.length_cons] at longer
  omega

end HereOnce

/-- A directory sees what is below it by the names that lead there. -/
theorem Level.seen_under {d : Disk} (h : HereOnce p) (hp : p.text ≠ "") (hn : ∀ name ∈ names, IsName name)
    (hne : names ≠ []) : (Level.of d p).seen (withoutHere (p.under names).text.toList) =
      joinPieces (names.map String.toList) := by
  have path_eq : withoutHere (withoutHere (p.under names).text.toList) =
      withoutHere p.opening ++ joinPieces (names.map String.toList) := by
    rw [Path.toList_under hp hn hne, h.withoutHere_twice (not_here_of_names hn)]
  have directory_eq : (Level.of d p).directory = withoutHere p.text.toList := rfl
  unfold Level.seen
  dsimp only
  rw [path_eq, directory_eq]
  rcases h.directory_cases hp with ⟨dot, opens⟩ | ⟨other, opens⟩
  · have here : ((⟨String.ofList (withoutHere p.text.toList)⟩ : Path) == ⟨"."⟩) = true := by
      rw [dot]
      exact BEq.rfl
    rw [if_pos (.inl here), opens, List.nil_append]
  · by_cases slash : (withoutHere p.opening ++ joinPieces (names.map String.toList)).contains '/' = true
    · rw [if_neg (not_or.2 ⟨h.not_here hp other, not_not_intro slash⟩)]
      rcases opens with e | e
      · rw [e, behind?_append]
        exact withoutSlash_names hn
      · rw [e, List.append_assoc, behind?_append]
        exact congrArg (Option.getD · _) (behind?_append ['/'] _)
    · rw [if_pos (.inr slash)]
      rcases getLast?_withoutHere (getLast?_opening p) with e | e
      · rw [e, List.nil_append]
      · refine absurd ?_ slash
        rw [List.contains_iff_mem]
        exact List.mem_append_left _ (List.mem_of_getLast? e)

end ScriptBundler.Ignore
