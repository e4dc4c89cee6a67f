import Mathlib.Data.List.Basic
import ScriptBundler.Disk.Basic

/-!
# Places of a disk and their paths

`Disk.pathOf` spells the names that lead to a place as a path. Plain paths are told apart by their steps, and the direct
ones among them are exactly the paths of places (`Path.direct_iff`). A path that leads anywhere leads to a place with
proper names (`Disk.isName_of_locate`), so the path without links of what stands there is direct.
-/

namespace ScriptBundler

namespace Path

variable {p q : Path} {cs : List Char} {ps : List (List Char)}

/-- A path is spelled as its steps are: no slash is doubled or stands at the end, and a dot stands in front only. -/
def Plain (p : Path) : Prop := ofComponents p.components = p

/-- An absolute path that is spelled plainly and does not climb. -/
structure Direct (p : Path) : Prop where
  absolute : p.isAbsolute = true
  plain : p.Plain
  straight : Component.up ∉ p.components

instance : DecidablePred Plain := fun p =>
  decidable_of_iff ((ofComponents p.components).text = p.text) ⟨congrArg mk, congrArg text⟩

instance : DecidablePred Direct := fun p =>
  decidable_of_iff (p.isAbsolute = true ∧ p.Plain ∧ Component.up ∉ p.components)
    ⟨fun ⟨absolute, plain, straight⟩ => ⟨absolute, plain, straight⟩, fun h => ⟨h.absolute, h.plain, h.straight⟩⟩

theorem Plain.eq_of_beq (hp : p.Plain) (hq : q.Plain) (h : (p == q) = true) : p = q := by
  have e := congrArg ofComponents (beq_iff.1 h)
  rwa [hp, hq] at e

/-! ### Pieces -/

theorem not_mem_of_mem_pieces {piece : List Char} (h : piece ∈ pieces cs) : '/' ∉ piece := by
  induction cs generalizing piece with
  | nil =>
    rw [pieces, List.mem_singleton] at h
    simp [h]
  | cons c cs ih =>
    unfold pieces at h
    split at h
    · rcases List.mem_cons.1 h with rfl | h
      · exact List.not_mem_nil
      · exact ih h
    · rename_i hc
      split at h
      · rw [List.mem_singleton.1 h]
        simpa using fun e => hc e.symm
      · rename_i first rest e
        rcases List.mem_cons.1 h with rfl | h
        · have hf : '/' ∉ first := ih (e ▸ List.mem_cons_self)
          simpa using ⟨fun e => hc e.symm, hf⟩
        · exact ih (e ▸ List.mem_cons_of_mem _ h)

private theorem pieces_append {piece : List Char} (h : '/' ∉ piece) : pieces (piece ++ '/' :: cs) = piece :: pieces cs := by
  induction piece with
  | nil => rfl
  | cons c piece ih =>
    rw [List.mem_cons, not_or] at h
    rw [List.cons_append, pieces, if_neg fun e => h.1 e.symm, ih h.2]

theorem pieces_of_not_mem {piece : List Char} (h : '/' ∉ piece) : pieces piece = [piece] := by
  induction piece with
  | nil => rfl
  | cons c piece ih =>
    rw [List.mem_cons, not_or] at h
    rw [pieces, if_neg fun e => h.1 e.symm, ih h.2]

theorem pieces_joinPieces (hne : ps ≠ []) (h : ∀ piece ∈ ps, '/' ∉ piece) : pieces (joinPieces ps) = ps := by
  induction ps with
  | nil => exact absurd rfl hne
  | cons piece ps ih =>
    rw [List.forall_mem_cons] at h
    cases ps with
    | nil => exact pieces_of_not_mem h.1
    | cons next ps => rw [joinPieces, pieces_append h.1, ih (List.cons_ne_nil _ _) h.2]

theorem joinPieces_eq_intercalate (ps : List (List Char)) : joinPieces ps = ['/'].intercalate ps := by
  induction ps with
  | nil => rfl
  | cons piece ps ih =>
    cases ps with
    | nil => simp [joinPieces]
    | cons next ps =>
      rw [joinPieces, ih, List.intercalate_cons_of_ne_nil (List.cons_ne_nil _ _), List.append_assoc, List.singleton_append]

end Path

namespace Disk

variable {d : Disk} {p : Path} {name : String} {location : Location} {arrival : Arrival}

/-- What a directory may call what it holds: no text that is empty or means a step of another kind, and no slashes. -/
def IsName (name : String) : Prop := name ≠ "" ∧ name ≠ "." ∧ name ≠ ".." ∧ '/' ∉ name.toList

/-- The names of the working directory are proper. -/
def Grounded (d : Disk) : Prop := ∀ name ∈ d.workingDirectory, IsName name

/-! ### Paths of places -/

theorem toList_pathOf (location : Location) :
    (pathOf location).text.toList = '/' :: Path.joinPieces (location.map String.toList) := by
  rw [pathOf, String.toList_append, String.toList_intercalate, Path.joinPieces_eq_intercalate]
  rfl

private theorem pieces_names (h : ∀ name ∈ location, IsName name) :
    (Path.pieces (Path.joinPieces (location.map String.toList))).filter (!Path.blank ·) = location.map String.toList := by
  cases location with
  | nil => rfl
  | cons name location =>
    have no_slash : ∀ piece ∈ (name :: location).map String.toList, '/' ∉ piece := by
      intro piece hpiece
      obtain ⟨n, hn, rfl⟩ := List.mem_map.1 hpiece
      exact (h n hn).2.2.2
    rw [Path.pieces_joinPieces (by simp) no_slash, List.filter_eq_self]
    intro piece hpiece
    obtain ⟨n, hn, rfl⟩ := List.mem_map.1 hpiece
    obtain ⟨hne, hdot, -, -⟩ := h n hn
    have h₁ : n.toList ≠ [] := fun e => hne (String.toList_inj.1 e)
    have h₂ : n.toList ≠ ['.'] := fun e => hdot (String.toList_inj.1 e)
    simp [Path.blank, h₁, h₂]

theorem component_toList (h : IsName name) : Path.component name.toList = .normal name := by
  obtain ⟨-, hdot, hup, -⟩ := h
  have h₁ : name.toList ≠ ['.'] := fun e => hdot (String.toList_inj.1 e)
  have h₂ : name.toList ≠ ['.', '.'] := fun e => hup (String.toList_inj.1 e)
  rw [Path.component, if_neg h₁, if_neg h₂, String.ofList_toList]

theorem components_pathOf (h : ∀ name ∈ location, IsName name) :
    (pathOf location).components = .root :: location.map .normal := by
  have split_eq : (pathOf location).split = (none, Path.pieces (Path.joinPieces (location.map String.toList))) := by
    rw [Path.split, toList_pathOf]
    rfl
  rw [Path.components, split_eq]
  simp only [pieces_names h, List.map_map, List.singleton_append]
  congr 1
  exact List.map_congr_left fun name hname => component_toList (h name hname)

theorem ofComponents_names (location : Location) :
    Path.ofComponents (.root :: location.map .normal) = pathOf location := by
  have e : (location.map Path.Component.normal).map Path.ofComponents.word = location.map String.toList := by
    rw [List.map_map]
    rfl
  rw [Path.ofComponents, Path.ofComponents.go, e, ← toList_pathOf, String.ofList_toList]

theorem direct_pathOf (h : ∀ name ∈ location, IsName name) : (pathOf location).Direct where
  absolute := by
    rw [Path.isAbsolute, toList_pathOf]
    rfl
  plain := by
    rw [Path.Plain, components_pathOf h, ofComponents_names]
  straight := by
    rw [components_pathOf h]
    simp

/-! ### Where paths lead -/

theorem stat_eq_ok {node : Node} :
    d.stat p arrival = .ok node ↔ ∃ location, d.locate p arrival = .ok location ∧ d.node? location = some node := by
  unfold stat
  rcases d.locate p arrival with e | location
  · simp [bind, Except.bind]
  · simp only [bind, Except.bind, Except.ok.injEq, exists_eq_left']
    split <;> simp_all

theorem exists_of_isDirectory (h : d.isDirectory p = true) :
    ∃ location time, d.locate p = .ok location ∧ d.node? location = some (.directory time) := by
  unfold isDirectory at h
  split at h
  · rename_i time hs
    obtain ⟨location, hl, hn⟩ := stat_eq_ok.1 hs
    exact ⟨location, time, hl, hn⟩
  · cases h

theorem list_of_locate {time : Nat} (located : d.locate p = .ok location) (there : d.node? location = some (.directory time)) :
    d.list p = .ok (d.namesIn location) := by
  rw [list, located]
  simp only [bind, Except.bind, there]

theorem isNamed_of_locate (located : d.locate p ⟨false, false⟩ = .ok location) (there : d.node? location ≠ none) :
    d.isNamed p = true := by
  obtain ⟨node, e⟩ := Option.ne_none_iff_exists'.1 there
  rw [isNamed, stat_eq_ok.2 ⟨location, located, e⟩]
  rfl

private theorem not_mem_of_mem_names {text : String} (h : name ∈ names text) : '/' ∉ name.toList := by
  obtain ⟨piece, hpiece, rfl⟩ := List.mem_map.1 h
  rw [String.toList_ofList]
  exact Path.not_mem_of_mem_pieces hpiece

/-- A way to go on arrives at proper names. -/
private def Proper (go : Location → List String → Except DiskError Location) : Prop :=
  ∀ start names location, (∀ name ∈ start, IsName name) → (∀ name ∈ names, '/' ∉ name.toList) →
    go start names = .ok location → ∀ name ∈ location, IsName name

private theorem proper_descend {again : Location → List String → Except DiskError Location} (ha : Proper again) :
    Proper (d.descend arrival again) := by
  intro start names location hs hn h
  induction names generalizing start with
  | nil =>
    rw [descend] at h
    cases h
    exact hs
  | cons name rest ih =>
    rw [List.forall_mem_cons] at hn
    rw [descend] at h
    split at h
    · exact ih start hs hn.2 h
    · rename_i hdot
      rw [not_or] at hdot
      split at h
      · exact ih _ (fun n hn' => hs n (List.dropLast_subset start hn')) hn.2 h
      · rename_i hup
        have proper : ∀ n ∈ start ++ [name], IsName n := by
          intro n hn'
          rcases List.mem_append.1 hn' with hn' | hn'
          · exact hs n hn'
          · rw [List.mem_singleton.1 hn']
            exact ⟨hdot.1, hdot.2, hup, hn.1⟩
        have target_names : ∀ target : String, ∀ n ∈ Disk.names target ++ rest, '/' ∉ n.toList := by
          intro target n hn'
          exact (List.mem_append.1 hn').elim not_mem_of_mem_names (hn.2 n)
        split at h
        · cases h
        · -- the walk ends at a file, goes on in a directory, and starts again at a link
          split at h
          · split at h
            · cases h
              exact proper
            · cases h
          · split at h
            · cases h
              exact proper
            · cases h
          · exact ih _ proper hn.2 h
          · split at h
            · cases h
              exact proper
            · split at h
              · exact ha [] _ _ (by simp) (target_names _) h
              · exact ha start _ _ hs (target_names _) h

private theorem proper_walk (n : Nat) : Proper (d.walk arrival n) := by
  induction n with
  | zero => exact proper_descend fun _ _ _ _ _ h => nomatch h
  | succ n ih => exact proper_descend ih

theorem isName_of_locate (hd : d.Grounded) (h : d.locate p arrival = .ok location) : ∀ name ∈ location, IsName name := by
  unfold locate at h
  split at h
  · cases h
  · split at h
    · cases h
    · split at h
      · cases h
      · refine proper_walk 40 _ _ _ ?_ (fun _ => not_mem_of_mem_names) h
        split
        · simp
        · exact hd

end Disk

/-- The direct paths are those of places. -/
theorem Path.direct_iff {p : Path} : p.Direct ↔ ∃ location, (∀ name ∈ location, Disk.IsName name) ∧ p = Disk.pathOf location := by
  constructor
  · rintro ⟨absolute, plain, straight⟩
    obtain ⟨cs, e⟩ : ∃ cs, p.text.toList = '/' :: cs := by
      unfold isAbsolute at absolute
      rcases h : p.text.toList with _ | ⟨c, cs⟩
      · simp [h] at absolute
      · rw [h, List.head?_cons, beq_iff_eq, Option.some_inj] at absolute
        exact ⟨cs, by rw [absolute]⟩
    have components_eq : p.components = .root :: ((pieces cs).filter (!blank ·)).map component := by
      rw [components, split, e]
      rfl
    -- a piece that is neither blank nor two dots is a name
    have names : ∀ piece ∈ (pieces cs).filter (!blank ·), Disk.IsName (String.ofList piece) := by
      intro piece hpiece
      obtain ⟨hp, hb⟩ := List.mem_filter.1 hpiece
      simp only [blank, Bool.not_eq_true', Bool.or_eq_false_iff, List.isEmpty_eq_false_iff, beq_eq_false_iff_ne] at hb
      have hup : piece ≠ ['.', '.'] := by
        rintro rfl
        apply straight
        rw [components_eq]
        exact List.mem_cons_of_mem _ (List.mem_map.2 ⟨_, hpiece, rfl⟩)
      refine ⟨fun h => hb.1 ?_, fun h => hb.2 ?_, fun h => hup ?_, ?_⟩
      · simpa using congrArg String.toList h
      · simpa using congrArg String.toList h
      · simpa using congrArg String.toList h
      · rw [String.toList_ofList]
        exact not_mem_of_mem_pieces hp
    refine ⟨((pieces cs).filter (!blank ·)).map String.ofList, ?_, ?_⟩
    · intro name hname
      obtain ⟨piece, hpiece, rfl⟩ := List.mem_map.1 hname
      exact names piece hpiece
    · rw [← Disk.ofComponents_names, ← plain, components_eq, List.map_map]
      congr 2
      refine List.map_congr_left fun piece hpiece => ?_
      have h := Disk.component_toList (names piece hpiece)
      rwa [String.toList_ofList] at h
  · rintro ⟨location, h, rfl⟩
    exact Disk.direct_pathOf h

end ScriptBundler
