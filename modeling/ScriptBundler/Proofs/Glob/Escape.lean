import ScriptBundler.Proofs.Disk.Tree
import ScriptBundler.Proofs.Glob.Expand

/-!
# Escaped texts

An escaped text is read as one token for each character of the text (`parse_escape`), and these tokens match that text
only (`accepts_quoted`). So what is found for the escaped path of something that stands in directories is this path alone
(`paths_escape`). The path of a pattern that is the name of something else is never looked for, though: `expandOne` takes
such a pattern as it stands (`expandOne_escape`).
-/

namespace ScriptBundler.Glob

open Disk (IsName Ordinary Askable pathOf)

variable {d : Disk} {c : Char} {cs ds : List Char} {name : String} {names : List String} {k : Location}

/-! ### Tokens -/

/-- Characters that are escaped. -/
def isSpecial (c : Char) : Bool := c = '?' ∨ c = '*' ∨ c = '[' ∨ c = ']'

/-- What stands for a character in an escaped text. -/
def quoted (c : Char) : List Char := if isSpecial c then ['[', c, ']'] else [c]

/-- What is read for it. -/
def quotedToken (c : Char) : Token := if isSpecial c then .within [.one c] else .char c

private theorem toList_escape (text : String) : (escape text).toList = text.toList.flatMap quoted := by
  rw [escape, String.toList_ofList]
  congr 1
  funext c
  simp only [quoted, isSpecial, decide_eq_true_eq]

private theorem push_quotedToken (done : List Token) : push done (quotedToken c) = done ++ [quotedToken c] := by
  unfold quotedToken
  split <;> rfl

theorem read_plain {done : List Token} {position : Nat} {before : Option Char} (h : c ≠ '*' ∧ c ≠ '?' ∧ c ≠ '[') :
    read done position before (c :: cs) = read (push done (.char c)) (position + 1) (some c) cs := by
  rw [read.eq_def]
  split <;> simp_all

private theorem read_special {done : List Token} {position : Nat} {before : Option Char} (h : isSpecial c = true) :
    read done position before ('[' :: c :: ']' :: cs) =
      read (push done (.within [.one c])) (position + 3) (some ']') cs := by
  -- The first character behind the bracket is a member, whatever it is, unless it is an exclamation mark.
  have class_eq : classOf (c :: ']' :: cs) = some (.within [.one c], cs) := by
    rcases (by simpa [isSpecial] using h : c = '?' ∨ c = '*' ∨ c = '[' ∨ c = ']') with rfl | rfl | rfl | rfl <;> rfl
  rw [read]
  split
  · rename_i token after e
    rw [class_eq, Option.some_inj, Prod.mk.injEq] at e
    obtain ⟨rfl, rfl⟩ := e
    congr 1
    simp only [List.length_cons]
    omega
  · rename_i e
    rw [class_eq] at e
    cases e

private theorem read_quoted {done : List Token} {position : Nat} {before : Option Char} :
    read done position before (cs.flatMap quoted) = .ok (done ++ cs.map quotedToken) := by
  induction cs generalizing done position before with
  | nil => simp [read]
  | cons c cs ih =>
    rw [List.flatMap_cons, List.map_cons, List.append_cons, ← push_quotedToken]
    by_cases special : isSpecial c = true
    · rw [quoted, if_pos special, List.cons_append, List.cons_append, List.singleton_append, read_special special, ih,
        quotedToken, if_pos special]
    · have plain : c ≠ '*' ∧ c ≠ '?' ∧ c ≠ '[' := by
        refine ⟨?_, ?_, ?_⟩
        all_goals
          rintro rfl
          exact special rfl
      rw [quoted, if_neg special, List.singleton_append, read_plain plain, ih, quotedToken, if_neg special]

theorem parse_escape (text : String) : parse (escape text) = .ok (text.toList.map quotedToken) := by
  rw [parse, toList_escape, read_quoted, List.nil_append]

private theorem attempt_quoted : attempt false (cs.map quotedToken) ds = .matched ↔ ds = cs := by
  induction cs generalizing ds with
  | nil => cases ds <;> simp [attempt]
  | cons c cs ih =>
    have plain : ¬ (quotedToken c = .anyRun ∨ quotedToken c = .anyDirectories) := by
      unfold quotedToken
      split <;> simp
    have accepts (a : Char) : (quotedToken c).accepts false a = decide (a = c) := by
      unfold quotedToken
      split <;> simp [Token.accepts, Member.contains]
    rw [List.map_cons, attempt.eq_def]
    dsimp only
    rw [if_neg plain]
    cases ds with
    | nil => simp
    | cons a ds =>
      dsimp only
      rw [accepts, List.cons.injEq, ← ih]
      by_cases same : a = c <;> simp [same]

/-! ### Pieces -/

/-- The piece that is read for an escaped name. -/
def quotedPiece (name : String) : Piece := ⟨name.toList.map quotedToken⟩

theorem accepts_quoted (other : String) : (quotedPiece name).accepts other = decide (other = name) := by
  rw [Piece.accepts, matchAll, quotedPiece, Bool.eq_iff_iff, decide_eq_true_iff, decide_eq_true_iff, attempt_quoted,
    String.toList_inj]

private theorem isRecursive_quoted : (quotedPiece name).isRecursive = false := by
  simp only [Piece.isRecursive, quotedPiece, List.contains_eq_mem, List.mem_map, decide_eq_false_iff_not]
  rintro ⟨c, -, e⟩
  unfold quotedToken at e
  split at e <;> cases e

private theorem literal?_quoted :
    (quotedPiece name).literal? = if name.toList.any isSpecial then none else some name := by
  have each (cs : List Char) : (cs.map quotedToken).mapM Piece.literal?.character? =
      if cs.any isSpecial then none else some cs := by
    induction cs with
    | nil => rfl
    | cons c cs ih =>
      rw [List.map_cons, List.mapM_cons, ih, List.any_cons]
      by_cases special : isSpecial c = true
      · simp [quotedToken, special, Piece.literal?.character?]
      · by_cases others : cs.any isSpecial = true
        · simp [quotedToken, special, others, Piece.literal?.character?]
        · simp [quotedToken, special, others, Piece.literal?.character?]
  rw [Piece.literal?, quotedPiece, each]
  split <;> simp

/-! ### Searching -/

theorem entry_pathOf (h : ∀ name ∈ k, IsName name) (hn : IsName name) : entry (pathOf k) name = pathOf (k ++ [name]) := by
  have other : ¬ (pathOf k == ⟨"."⟩) = true := by
    rw [Path.beq_iff, Disk.components_pathOf h]
    exact nofun
  rw [entry, if_neg other, Disk.join_pathOf h hn]

/-- If all but one member of a list come to nothing, the list comes to what this one does. -/
private theorem flatMap_eq_of_nodup {α β : Type} {as : List α} {a : α} {f : α → List β} (nodup : as.Nodup) (h : a ∈ as)
    (others : ∀ b ∈ as, b ≠ a → f b = []) : as.flatMap f = f a := by
  obtain ⟨front, back, rfl⟩ := List.append_of_mem h
  have apart := List.nodup_append.1 nodup
  have front_nil : front.flatMap f = [] := List.flatMap_eq_nil_iff.2 fun b hb =>
    others b (by simp [hb]) (apart.2.2 b hb a List.mem_cons_self)
  have back_nil : back.flatMap f = [] := List.flatMap_eq_nil_iff.2 fun b hb =>
    others b (by simp [hb]) fun e => (List.nodup_cons.1 apart.2.1).1 (e ▸ hb)
  rw [List.flatMap_append, List.flatMap_cons, front_nil, back_nil, List.append_nil, List.nil_append]

variable {s : Search} {n : Nat}

/-- A name that stands in a directory is found for its escaped text, and no other. -/
private theorem below_quoted_cons (n : Nat) (pieces : List Piece) (hd : s.disk.Regular) (hf : s.directoriesOnly = false)
    (h : s.disk.Standing (k ++ [name])) : ∃ m ≥ n, s.below (n + 3) (quotedPiece name :: pieces) (pathOf k) =
      if pieces.isEmpty then [pathOf (k ++ [name])] else s.below m pieces (pathOf (k ++ [name])) := by
  obtain ⟨above, last⟩ := List.forall_mem_append.1 h.named
  have named : IsName name := last name List.mem_cons_self
  have found (p : Path) : s.found p = [p] := by
    simp [Search.found, hf]
  by_cases special : name.toList.any isSpecial = true
  · refine ⟨n, le_rfl, ?_⟩
    have dots : ["..", "."].filter (quotedPiece name).accepts = [] := by
      simp [accepts_quoted, named.2.1.symm, named.2.2.1.symm]
    have visit (other : String) : s.visit (n + 2) (quotedPiece name :: pieces) (entry (pathOf k) other) other =
        if other = name then
          if pieces.isEmpty then [entry (pathOf k) other] else s.below n pieces (entry (pathOf k) other)
        else [] := by
      rw [Search.visit, List.span_eq_takeWhile_dropWhile]
      simp [isRecursive_quoted, Search.compare, accepts_quoted, found]
    have mem : name ∈ (s.disk.namesIn k).mergeSort fun a b => a ≤ b :=
      List.mem_mergeSort.2 (Disk.mem_namesIn.2 h.there)
    have nodup : ((s.disk.namesIn k).mergeSort fun a b => a ≤ b).Nodup :=
      (List.mergeSort_perm _ _).nodup_iff.2 hd.nodup_namesIn
    rw [Search.below, literal?_quoted, if_pos special]
    dsimp only
    rw [h.isDirectory, h.list]
    dsimp only
    rw [dots, ite_self, List.flatMap_nil, List.nil_append,
      flatMap_eq_of_nodup nodup mem fun other _ hne => by rw [visit, if_neg hne], visit, if_pos rfl, entry_pathOf above named]
  · refine ⟨n + 1, Nat.le_succ n, ?_⟩
    rw [Search.below, literal?_quoted, if_neg special]
    dsimp only
    rw [if_neg (not_or.2 ⟨named.2.1, named.2.2.1⟩), entry_pathOf above named, h.isNamed, if_pos rfl]
    cases pieces <;> simp [Search.onward, found]

private theorem below_quoted (hd : s.disk.Regular) (hf : s.directoriesOnly = false) (hne : names ≠ [])
    (h : s.disk.Standing (k ++ names)) (hn : 3 * names.length ≤ n) :
    s.below n (names.map quotedPiece) (pathOf k) = [pathOf (k ++ names)] := by
  induction names generalizing k n with
  | nil => exact absurd rfl hne
  | cons name names ih =>
    rw [List.length_cons] at hn
    obtain ⟨n, rfl⟩ := Nat.exists_eq_add_of_le' (show 3 ≤ n by omega)
    rw [List.append_cons] at h ⊢
    obtain ⟨m, hm, step⟩ := below_quoted_cons n (names.map quotedPiece) hd hf
      (h.mono (List.prefix_append _ names))
    rw [List.map_cons, step]
    by_cases last : names = []
    · simp [last]
    · rw [if_neg (by simpa using last), ih last h (by omega)]

/-! ### Patterns of paths -/

private theorem quoted_ne_nil (c : Char) : quoted c ≠ [] := by
  unfold quoted
  split <;> simp

private theorem escape_ne_empty (h : IsName name) : escape name ≠ "" := by
  intro e
  have spelled := toList_escape name
  rw [e] at spelled
  obtain ⟨c, cs, he⟩ := List.exists_cons_of_ne_nil fun e => h.1 (String.toList_inj.1 e)
  rw [he, List.flatMap_cons] at spelled
  exact quoted_ne_nil c (List.append_eq_nil_iff.1 spelled.symm).1

private theorem slash_not_mem_escape (h : IsName name) : '/' ∉ (escape name).toList := by
  rw [toList_escape, List.mem_flatMap]
  rintro ⟨c, hc, slash⟩
  have same : '/' = c := by
    unfold quoted at slash
    split at slash
    · simpa using slash
    · simpa using slash
  exact h.2.2.2 (same ▸ hc)

private theorem getLast?_of_escape {text : String} (h : (escape text).toList.getLast? = some '/') :
    text.toList.getLast? = some '/' := by
  rw [toList_escape] at h
  rcases List.eq_nil_or_concat text.toList with e | ⟨front, c, e⟩
  · simp [e] at h
  · rw [List.concat_eq_append] at e
    rw [e, List.flatMap_append, List.flatMap_singleton, List.getLast?_append_of_ne_nil _ (quoted_ne_nil c)] at h
    rw [e, List.getLast?_concat]
    unfold quoted at h
    split at h
    · simp at h
    · simpa using h

private theorem joinPieces_quoted (ps : List (List Char)) :
    (Path.joinPieces ps).flatMap quoted = Path.joinPieces (ps.map (·.flatMap quoted)) := by
  induction ps with
  | nil => rfl
  | cons piece ps ih =>
    cases ps with
    | nil => rfl
    | cons next ps =>
      rw [Path.joinPieces, List.flatMap_append, List.flatMap_cons, ih]
      rfl

private theorem toList_escape_pathOf (k : Location) :
    (escape (pathOf k).text).toList = '/' :: Path.joinPieces ((k.map escape).map String.toList) := by
  rw [toList_escape, Disk.toList_pathOf, List.flatMap_cons, joinPieces_quoted, List.map_map, List.map_map]
  exact congrArg (fun ps => '/' :: Path.joinPieces ps) (List.map_congr_left fun name _ => (toList_escape name).symm)

private theorem isAbsolute_escape (k : Location) : (⟨escape (pathOf k).text⟩ : Path).isAbsolute = true := by
  rw [Path.isAbsolute, toList_escape_pathOf]
  rfl

/-- The pieces of an escaped path are the escaped names. -/
private theorem steps_escape (h : ∀ name ∈ k, IsName name) (hne : k ≠ []) :
    steps (escape (pathOf k).text) = k.map escape := by
  have no_slash : ∀ piece ∈ (k.map escape).map String.toList, '/' ∉ piece := by
    simpa using fun name hname => slash_not_mem_escape (h name hname)
  have last : (k.map escape).getLast? ≠ some "" := by
    intro e
    obtain ⟨name, hname, empty⟩ := List.mem_map.1 (List.mem_of_getLast? e)
    exact escape_ne_empty (h name hname) empty
  rw [steps, if_pos (isAbsolute_escape k), toList_escape_pathOf, pieceTexts, String.toList_ofList, List.drop_one, List.tail_cons,
    Path.pieces_joinPieces (by simpa using hne) no_slash, List.map_map]
  have spelled : (k.map escape).map (String.ofList ∘ String.toList) = k.map escape := by simp
  rw [spelled]
  exact if_neg last

/-- What stands in directories is all that is found for its escaped path. -/
theorem paths_escape (hd : d.Regular) (hne : k ≠ []) (h : d.Standing k) : paths d (escape (pathOf k).text) = .ok [pathOf k] := by
  have last : (escape (pathOf k).text).toList.getLast? ≠ some '/' := fun e =>
    Disk.getLast?_pathOf h.named hne (getLast?_of_escape e)
  have pieces_eq : (k.map escape).mapM parse = .ok (k.map fun name => name.toList.map quotedToken) := by
    clear hne h last
    induction k with
    | nil => rfl
    | cons name k ih =>
      rw [List.map_cons, List.mapM_cons, ih, parse_escape]
      rfl
  rw [paths_eq, steps_escape h.named hne, parse_escape, pieces_eq, if_pos (isAbsolute_escape k)]
  show Except.ok (Search.below _ _ _ _) = _
  rw [List.length_map, List.map_map, decide_eq_false last]
  exact congrArg Except.ok (below_quoted (s := ⟨d, false⟩) (k := []) hd rfl hne h (by omega))

/-- The path itself, unless something goes by the name of its escaped text. -/
def kept (d : Disk) (p : Path) : Path := if d.exists ⟨escape p.text⟩ then ⟨escape p.text⟩ else p

private theorem escape_of_not_magic (text : String) (h : hasMagic (escape text) = false) : escape text = text := by
  have plain : ∀ c ∈ text.toList, quoted c = [c] := by
    intro c hc
    by_contra other
    have special : isSpecial c = true := by
      by_contra h
      exact other (by rw [quoted, if_neg h])
    rw [hasMagic, List.any_eq_false] at h
    refine h '[' ?_ (by simp)
    rw [toList_escape, List.mem_flatMap]
    exact ⟨c, hc, by simp [quoted, special]⟩
  refine String.toList_inj.1 ?_
  rw [toList_escape, List.flatMap_congr plain, List.flatMap_singleton']

/-- The pattern of what stands in directories is expanded to its path, or taken as it stands. -/
theorem expandOne_escape (hd : d.Regular) (hne : k ≠ []) (h : d.Standing k) :
    expandOne d (escape (pathOf k).text) = .ok [kept d (pathOf k)] := by
  unfold expandOne kept
  by_cases there : d.exists ⟨escape (pathOf k).text⟩ = true
  · rw [if_pos (.inr there), if_pos there]
  rw [if_neg there]
  by_cases magic : hasMagic (escape (pathOf k).text) = true
  · rw [if_neg (by simp [magic, there]), paths_escape hd hne h]
  · rw [if_pos (.inl magic), escape_of_not_magic _ (by simpa using magic)]

end ScriptBundler.Glob
