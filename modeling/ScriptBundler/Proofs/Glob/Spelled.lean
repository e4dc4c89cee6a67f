import Mathlib.Data.List.TakeWhile
import ScriptBundler.Proofs.Disk.Alike
import ScriptBundler.Proofs.Glob.Expand
import ScriptBundler.Proofs.Path.Pairs

/-!
# Routes that patterns spell

All that a pattern has looked up below a directory is at the end of a route that its pieces spell (`Spells`). So in two
directories that look alike along these routes it finds twins, however long the paths of the directories are
(`below_alike`): the bound on the search leaves room for both (`need`).
-/

namespace ScriptBundler.Glob

open ScriptBundler.Path (IsRoute Twin)
open Disk (IsName)

/-- Pieces spell a route: each of its texts is the one of a literal piece or fits a piece, and a piece that stands for any
number of directories may be passed over or may stand for one more. -/
inductive Spells : List Piece → List String → Prop
  | here {pieces : List Piece} : Spells pieces []
  | literal {piece : Piece} {pieces : List Piece} {name : String} {route : List String} (h : piece.literal? = some name)
    (k : Spells pieces route) : Spells (piece :: pieces) (name :: route)
  | special {piece : Piece} {pieces : List Piece} {name : String} {route : List String}
    (dot : piece.tokens.head? = some (.char '.')) (hn : name = ".." ∨ name = ".") (fits : piece.accepts name = true)
    (k : Spells pieces route) : Spells (piece :: pieces) (name :: route)
  | fitting {piece : Piece} {pieces : List Piece} {name : String} {route : List String} (hn : IsName name)
    (fits : piece.accepts name = true) (k : Spells pieces route) : Spells (piece :: pieces) (name :: route)
  | skipped {piece : Piece} {pieces : List Piece} {route : List String} (h : piece.isRecursive = true)
    (k : Spells pieces route) : Spells (piece :: pieces) route
  | deeper {piece : Piece} {pieces : List Piece} {name : String} {route : List String} (h : piece.isRecursive = true)
    (hn : IsName name) (k : Spells (piece :: pieces) route) : Spells (piece :: pieces) (name :: route)

/-- Pieces for directories may be passed over. -/
private theorem Spells.append {rs ps : List Piece} {route : List String} (hr : ∀ r ∈ rs, r.isRecursive = true)
    (h : Spells ps route) : Spells (rs ++ ps) route := by
  induction rs with
  | nil => exact h
  | cons r rs ih =>
    rw [List.forall_mem_cons] at hr
    exact .skipped hr.1 (ih hr.2)

variable {d : Disk} {p q x : Path} {T : List String → Prop} {front : List String} {name : String} {piece : Piece}
  {pieces rs ps : List Piece} {only : Bool} {n m : Nat}

private theorem forall₂_flatMap {α β γ : Type} {R : β → γ → Prop} {f : α → List β} {g : α → List γ} {as : List α}
    (h : ∀ a ∈ as, List.Forall₂ R (f a) (g a)) : List.Forall₂ R (as.flatMap f) (as.flatMap g) := by
  induction as with
  | nil => exact .nil
  | cons a as ih =>
    rw [List.forall_mem_cons] at h
    exact List.rel_append h.1 (ih h.2)

/-! ### How long a search can be -/

/-- A search that may take more steps than this is not cut short. -/
def need (pieces : List Piece) (x : Path) : Nat := 3 * (pieces.length + (longest - x.text.utf8ByteSize))

private theorem size_join (hp : p.text ≠ "") (hn : (⟨name⟩ : Path).isAbsolute = false) :
    p.text.utf8ByteSize + name.utf8ByteSize ≤ (p.join ⟨name⟩).text.utf8ByteSize := by
  have spelled : (p.join ⟨name⟩).text = String.ofList p.opening ++ name := by
    refine String.toList_inj.1 ?_
    rw [Path.toList_join_of_relative hp hn, String.toList_append, String.toList_ofList]
  have front : p.text.utf8ByteSize ≤ (String.ofList p.opening).utf8ByteSize := by
    unfold Path.opening
    split
    · rw [String.ofList_toList]
    · have longer : String.ofList (p.text.toList ++ ['/']) = p.text ++ "/" := String.toList_inj.1 (by simp)
      rw [longer, String.utf8ByteSize_append]
      exact Nat.le_add_right _ _
  rw [spelled, String.utf8ByteSize_append]
  omega

private theorem size_lt_longest (h : d.isDirectory x = true) : x.text.utf8ByteSize < longest := by
  unfold Disk.isDirectory at h
  rcases e : d.stat x with error | node
  · rw [e] at h
    cases h
  · obtain ⟨location, located, -⟩ := Disk.stat_eq_ok.1 e
    have short := (Disk.locate_iff.1 located).1.short
    unfold longest
    omega

/-! ### Searching in two directories -/

/-- Pieces find twins at the end of a route, if neither search is cut short. -/
def FindsTwins (d : Disk) (only : Bool) (p q : Path) (T : List String → Prop) (pieces : List Piece) (front : List String) :
    Prop := ∀ n m, need pieces (p.under front) < n → need pieces (q.under front) < m →
  List.Forall₂ (Twin p q T) ((⟨d, only⟩ : Search).below n pieces (p.under front))
    ((⟨d, only⟩ : Search).below m pieces (q.under front))

private theorem text_ne_of_isAbsolute (hp : p.isAbsolute = true) : p.text ≠ "" := fun e => by
  simp [Path.isAbsolute, e] at hp

private theorem entry_under (hp : p.isAbsolute = true) (hf : IsRoute front) :
    entry (p.under front) name = p.under (front ++ [name]) := by
  have nonempty := text_ne_of_isAbsolute hp
  obtain ⟨steps, behind⟩ := hf.exists_components
  obtain ⟨rest, begins⟩ : ∃ rest, p.components = .root :: rest := by
    rcases Path.split_eq p with ⟨cs, -, hs⟩ | ⟨ht, -⟩ | ⟨first, rest, -, ha, -, -⟩
    · exact ⟨_, Path.components_of_absolute hs⟩
    · exact absurd ht nonempty
    · rw [hp] at ha
      cases ha
  have other : ¬ (p.under front == ⟨"."⟩) = true := by
    rw [Path.beq_iff, behind p nonempty, begins]
    exact nofun
  rw [entry, if_neg other, Path.under_join]

section

variable (h : d.Alike p q T)
include h

private theorem found_alike (ht : T front) (hne : front ≠ []) : List.Forall₂ (Twin p q T)
    ((⟨d, only⟩ : Search).found (p.under front)) ((⟨d, only⟩ : Search).found (q.under front)) := by
  unfold Search.found
  dsimp only
  rw [h.isDirectory ht]
  split
  · exact .nil
  · exact .cons ⟨front, ht, hne, rfl, rfl⟩ .nil

private theorem onward_alike (ht : T front) (hne : front ≠ []) (below : FindsTwins d only p q T pieces front)
    (hn : need pieces (p.under front) + 1 < n) (hm : need pieces (q.under front) + 1 < m) : List.Forall₂ (Twin p q T)
      ((⟨d, only⟩ : Search).onward n pieces (p.under front)) ((⟨d, only⟩ : Search).onward m pieces (q.under front)) := by
  obtain ⟨n, rfl⟩ := Nat.exists_eq_add_of_lt hn
  obtain ⟨m, rfl⟩ := Nat.exists_eq_add_of_lt hm
  cases pieces with
  | nil => exact found_alike h ht hne
  | cons piece pieces =>
    rw [Search.onward, Search.onward]
    · exact below _ _ (by omega) (by omega)
    all_goals exact nofun

private theorem compare_alike (hne : front ≠ [])
    (below : piece.accepts name = true → T front ∧ FindsTwins d only p q T pieces front)
    (hn : need pieces (p.under front) + 1 < n) (hm : need pieces (q.under front) + 1 < m) : List.Forall₂ (Twin p q T)
      ((⟨d, only⟩ : Search).compare n (piece :: pieces) (p.under front) name)
      ((⟨d, only⟩ : Search).compare m (piece :: pieces) (q.under front) name) := by
  obtain ⟨n, rfl⟩ := Nat.exists_eq_add_of_lt hn
  obtain ⟨m, rfl⟩ := Nat.exists_eq_add_of_lt hm
  rw [Search.compare, Search.compare]
  split
  · rename_i fits
    obtain ⟨ht, below⟩ := below fits
    split
    · exact found_alike h ht hne
    · exact below _ _ (by omega) (by omega)
  · exact .nil

private theorem visit_alike (hne : front ≠ [])
    (passed : ∀ first ps, (piece :: pieces).dropWhile Piece.isRecursive = first :: ps → first.accepts name = true →
      T front ∧ FindsTwins d only p q T ps front)
    (deeper : ∀ last ∈ ((piece :: pieces).takeWhile Piece.isRecursive).getLast?,
      T front ∧ FindsTwins d only p q T (last :: (piece :: pieces).dropWhile Piece.isRecursive) front)
    (hn : need (piece :: pieces) (p.under front) + 1 < n) (hm : need (piece :: pieces) (q.under front) + 1 < m) :
    List.Forall₂ (Twin p q T) ((⟨d, only⟩ : Search).visit n (piece :: pieces) (p.under front) name)
      ((⟨d, only⟩ : Search).visit m (piece :: pieces) (q.under front) name) := by
  have parts := List.takeWhile_append_dropWhile (p := Piece.isRecursive) (l := piece :: pieces)
  have lengths := congrArg List.length parts
  rw [List.length_append] at lengths
  unfold need at hn hm
  rw [List.length_cons] at hn hm lengths
  obtain ⟨n, rfl⟩ := Nat.exists_eq_add_of_le' (show 1 ≤ n by omega)
  obtain ⟨m, rfl⟩ := Nat.exists_eq_add_of_le' (show 1 ≤ m by omega)
  rw [Search.visit, Search.visit, List.span_eq_takeWhile_dropWhile]
  have compared (hd : (piece :: pieces).dropWhile Piece.isRecursive ≠ []) : List.Forall₂ (Twin p q T)
      ((⟨d, only⟩ : Search).compare n ((piece :: pieces).dropWhile Piece.isRecursive) (p.under front) name)
      ((⟨d, only⟩ : Search).compare m ((piece :: pieces).dropWhile Piece.isRecursive) (q.under front) name) := by
    obtain ⟨first, ps, e⟩ := List.exists_cons_of_ne_nil hd
    rw [e] at lengths ⊢
    rw [List.length_cons] at lengths
    exact compare_alike h hne (passed first ps e) (by unfold need; omega) (by unfold need; omega)
  rcases recursive : (piece :: pieces).takeWhile Piece.isRecursive with _ | ⟨r, rs⟩
  · refine compared fun none => ?_
    rw [recursive, none] at parts
    cases parts
  · rw [recursive, List.length_cons] at lengths
    obtain ⟨ht, deeper⟩ := deeper ((r :: rs).getLast (List.cons_ne_nil _ _)) (by rw [recursive]; exact List.getLast_mem_getLast? _)
    dsimp only
    rw [h.isDirectory ht]
    by_cases directory : d.isDirectory (q.under front) = true
    · rw [if_pos directory, if_pos directory]
      refine List.rel_append ?_ (deeper n m ?_ ?_)
      · split
        · exact .cons ⟨front, ht, hne, rfl, rfl⟩ .nil
        · rename_i some_left
          exact compared (by simpa using some_left)
      all_goals
        unfold need
        rw [List.length_cons]
        omega
    · rw [if_neg directory, if_neg directory]
      split
      · exact .nil
      · rename_i some_left
        exact compared (by simpa using some_left)

end

/-! ### One step further -/

private theorem size_under (hp : p.isAbsolute = true) (hf : IsRoute front) (hn : (⟨name⟩ : Path).isAbsolute = false) :
    (p.under front).text.utf8ByteSize + name.utf8ByteSize ≤ (p.under (front ++ [name])).text.utf8ByteSize := by
  rw [← Path.under_join]
  exact size_join (hf.text_under_ne (text_ne_of_isAbsolute hp)) hn

/-- With a piece less, a search is shorter. -/
private theorem need_next (piece : Piece) (pieces : List Piece) (hp : p.isAbsolute = true) (hf : IsRoute front)
    (hn : (⟨name⟩ : Path).isAbsolute = false) :
    need pieces (p.under (front ++ [name])) + 3 ≤ need (piece :: pieces) (p.under front) := by
  have longer := size_under hp hf hn
  unfold need
  rw [List.length_cons]
  omega

/-- Below a directory it is shorter, too, since paths cannot get longer and longer. -/
private theorem need_deeper (hp : p.isAbsolute = true) (hf : IsRoute front) (named : IsName name)
    (directory : d.isDirectory (p.under front) = true) (hps : ps.length ≤ pieces.length) :
    need ps (p.under (front ++ [name])) + 3 ≤ need pieces (p.under front) := by
  have longer := size_under hp hf (Path.isAbsolute_of_isName named)
  have shorter := size_lt_longest directory
  have one : 0 < name.utf8ByteSize := Nat.pos_of_ne_zero fun none => named.1 (String.utf8ByteSize_eq_zero_iff.1 none)
  unfold need
  omega

/-- What pieces leave to be found behind a name is found there, as long as the search for it is shorter. -/
def FindsNext (d : Disk) (only : Bool) (p q : Path) (T : List String → Prop) (pieces : List Piece) (front : List String) :
    Prop := ∀ ps name, (∀ route, Spells ps route → Spells pieces (name :: route)) → T (front ++ [name]) ∧
  (need ps (p.under (front ++ [name])) + 3 ≤ need pieces (p.under front) → FindsTwins d only p q T ps (front ++ [name]))

section

variable (h : d.Alike p q T) (hp : p.isAbsolute = true) (hq : q.isAbsolute = true) (here : T front)
  (next : FindsNext d only p q T (piece :: pieces) front) (hn : need (piece :: pieces) (p.under front) < n + 1)
  (hm : need (piece :: pieces) (q.under front) < m + 1)
include h hp hq here next hn hm

private theorem onward_next (spells : ∀ route, Spells pieces route → Spells (piece :: pieces) (name :: route)) :
    List.Forall₂ (Twin p q T) ((⟨d, only⟩ : Search).onward n pieces (p.under (front ++ [name])))
      ((⟨d, only⟩ : Search).onward m pieces (q.under (front ++ [name]))) := by
  obtain ⟨there, below⟩ := next pieces name spells
  have relative := h.isRoute _ there name (by simp)
  have less := need_next piece pieces hp (h.isRoute front here) relative
  have less' := need_next piece pieces hq (h.isRoute front here) relative
  exact onward_alike h there (by simp) (below less) (by omega) (by omega)

private theorem literal_alike (literal : piece.literal? = some name) : List.Forall₂ (Twin p q T)
    ((⟨d, only⟩ : Search).below (n + 1) (piece :: pieces) (p.under front))
    ((⟨d, only⟩ : Search).below (m + 1) (piece :: pieces) (q.under front)) := by
  have found := onward_next h hp hq here next hn hm fun route => .literal literal
  have isRoute := h.isRoute front here
  rw [Search.below, Search.below]
  simp only [literal]
  rw [entry_under hp isRoute, entry_under hq isRoute, h.isDirectory here,
    h.isNamed (next pieces name fun route => .literal literal).1]
  split
  all_goals
    split
    · exact found
    · exact .nil

/-- What is listed is compared alike in both directories. -/
private theorem listed_alike (named : IsName name) (directory : d.isDirectory (p.under front) = true) :
    List.Forall₂ (Twin p q T) ((⟨d, only⟩ : Search).visit n (piece :: pieces) (p.under (front ++ [name])) name)
      ((⟨d, only⟩ : Search).visit m (piece :: pieces) (q.under (front ++ [name])) name) := by
  have isRoute := h.isRoute front here
  have directory' : d.isDirectory (q.under front) = true := h.isDirectory here ▸ directory
  have parts := List.takeWhile_append_dropWhile (p := Piece.isRecursive) (l := piece :: pieces)
  have lengths := congrArg List.length parts
  rw [List.length_append] at lengths
  have recursive : ∀ r ∈ (piece :: pieces).takeWhile Piece.isRecursive, r.isRecursive = true :=
    fun r hr => List.mem_takeWhile_imp hr
  have less := need_deeper hp isRoute named directory (le_refl (piece :: pieces).length)
  have less' := need_deeper hq isRoute named directory' (le_refl (piece :: pieces).length)
  have found {ps : List Piece} (hps : ps.length ≤ (piece :: pieces).length)
      (spells : ∀ route, Spells ps route → Spells (piece :: pieces) (name :: route)) :
      T (front ++ [name]) ∧ FindsTwins d only p q T ps (front ++ [name]) :=
    (next ps name spells).imp_right fun below => below (need_deeper hp isRoute named directory hps)
  refine visit_alike h (by simp) (fun first ps e fits => found ?_ fun route k => ?_)
    (fun last hlast => found ?_ fun route k => ?_) (by omega) (by omega)
  · rw [e, List.length_cons] at lengths
    omega
  · rw [← parts, e]
    exact .append recursive (.fitting named fits k)
  · obtain ⟨rs, hrs⟩ := List.getLast?_eq_some_iff.1 hlast
    rw [hrs, List.length_append, List.length_singleton] at lengths
    rw [List.length_cons]
    omega
  · obtain ⟨rs, hrs⟩ := List.getLast?_eq_some_iff.1 hlast
    rw [hrs, List.forall_mem_append, List.forall_mem_singleton] at recursive
    rw [← parts, hrs, List.append_assoc]
    exact .append recursive.1 (.deeper recursive.2 named k)

private theorem magic_alike (hd : d.Regular) (magic : piece.literal? = none) : List.Forall₂ (Twin p q T)
    ((⟨d, only⟩ : Search).below (n + 1) (piece :: pieces) (p.under front))
    ((⟨d, only⟩ : Search).below (m + 1) (piece :: pieces) (q.under front)) := by
  have isRoute := h.isRoute front here
  rw [Search.below, Search.below]
  simp only [magic]
  rw [h.isDirectory here]
  by_cases directory : d.isDirectory (q.under front) = true
  · have directory' : d.isDirectory (p.under front) = true := by rw [h.isDirectory here, directory]
    rw [directory, Disk.list_of_isDirectory directory, Disk.list_of_isDirectory directory']
    dsimp only
    rw [Disk.mergeSort_eq_of_perm (h.listing front here)]
    refine List.rel_append (forall₂_flatMap fun name special => ?_) (forall₂_flatMap fun name listed => ?_)
    · obtain ⟨dot, special⟩ : piece.tokens.head? = some (.char '.') ∧ name ∈ ["..", "."].filter piece.accepts := by
        split at special
        · exact ⟨‹_›, special⟩
        · cases special
      obtain ⟨special, fits⟩ := List.mem_filter.1 special
      rw [Path.under_join, Path.under_join]
      exact onward_next h hp hq here next hn hm fun route => .special dot (by simpa using special) fits
    · have named : IsName name := by
        obtain ⟨k, listing⟩ := Disk.exists_namesIn_of_list (Disk.list_of_isDirectory directory)
        rw [listing, List.mem_mergeSort] at listed
        exact hd.isName_of_mem_namesIn listed
      rw [entry_under hp isRoute, entry_under hq isRoute]
      exact listed_alike h hp hq here next hn hm named directory'
  · rw [Bool.not_eq_true] at directory
    rw [directory]
    exact .nil

end

/-- Where two directories look alike along all routes that pieces spell behind one, the pieces find twins there. -/
theorem below_alike (hd : d.Regular) (h : d.Alike p q T) (hp : p.isAbsolute = true) (hq : q.isAbsolute = true)
    (covered : ∀ route, Spells pieces route → T (front ++ route)) : FindsTwins d only p q T pieces front := by
  -- each step goes on to the next piece, or makes the path longer
  induction size : need pieces (p.under front) using Nat.strong_induction_on generalizing pieces front with
  | _ size ih =>
    intro n m hn hm
    obtain ⟨n, rfl⟩ := Nat.exists_eq_add_of_le' (Nat.one_le_of_lt hn)
    obtain ⟨m, rfl⟩ := Nat.exists_eq_add_of_le' (Nat.one_le_of_lt hm)
    have here : T front := by simpa using covered [] .here
    cases pieces with
    | nil =>
      rw [Search.below, Search.below]
      exact .nil
    | cons piece pieces =>
      have next : FindsNext d only p q T (piece :: pieces) front := by
        intro ps name spells
        have covered' (route : List String) (k : Spells ps route) : T (front ++ [name] ++ route) := by
          simpa using covered _ (spells route k)
        exact ⟨by simpa using covered' [] .here, fun less => ih _ (by omega) covered' rfl⟩
      rcases literal : piece.literal? with _ | name
      · exact magic_alike h hp hq here next hn hm hd literal
      · exact literal_alike h hp hq here next hn hm literal

end ScriptBundler.Glob
