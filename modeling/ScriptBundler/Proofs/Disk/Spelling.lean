import ScriptBundler.Proofs.Disk.Way
import ScriptBundler.Proofs.Path.Clean

/-!
# Where spellings of a path lead

Spellings of a path differ in empty names and dots only (`namesOf_congr`), and these do not lead anywhere. So two
spellings that both lead to something lead to the same place (`locate_congr`). One of them may lead nowhere, since behind
a file there must be nothing, not even a dot.
-/

namespace ScriptBundler.Disk

variable {d : Disk} {p q : Path} {start location location' : Location} {names names' : List String} {n n' : Nat}

/-- The names that count. -/
def counting (names : List String) : List String := names.filter fun name => !decide (name = "" ∨ name = ".")

private theorem counting_append (names names' : List String) :
    counting (names ++ names') = counting names ++ counting names' :=
  List.filter_append ..

private theorem counting_of_blank {name : String} (h : name = "" ∨ name = ".") (rest : List String) :
    counting (name :: rest) = counting rest := List.filter_cons_of_neg (by simp [h])

private theorem counting_cons {name : String} (h : ¬ (name = "" ∨ name = ".")) (rest : List String) :
    counting (name :: rest) = name :: counting rest := List.filter_cons_of_pos (by simp [h])

namespace Way

variable {arrival : Arrival} {name : String} {rest : List String}

theorem behind_blank (blank : name = "" ∨ name = ".") (h : d.Way arrival n start (name :: rest) location) :
    d.Way arrival n start rest location := by
  cases h with
  | blank _ k => exact k
  | up => simp at blank
  | through o => exact absurd blank o.not_blank
  | file o => exact absurd blank o.not_blank
  | new o => exact absurd blank o.not_blank
  | link o => exact absurd blank o.not_blank
  | jump o => exact absurd blank o.not_blank
  | turn o => exact absurd blank o.not_blank

private theorem behind_up (h : d.Way arrival n start (".." :: rest) location) :
    d.Way arrival n start.dropLast rest location := by
  cases h with
  | blank blank => simp at blank
  | up k => exact k
  | through o => exact absurd rfl o.not_up
  | file o => exact absurd rfl o.not_up
  | new o => exact absurd rfl o.not_up
  | link o => exact absurd rfl o.not_up
  | jump o => exact absurd rfl o.not_up
  | turn o => exact absurd rfl o.not_up

/-- An ordinary name leads into a directory, or to a file, or on from a link. -/
private theorem behind_ordinary (o : Ordinary name) (h : d.Way {} n start (name :: rest) location) :
    (∃ time, d.node? (start ++ [name]) = some (.directory time) ∧ d.Way {} n (start ++ [name]) rest location) ∨
    (∃ content time, d.node? (start ++ [name]) = some (.file content time) ∧ location = start ++ [name]) ∨
    ∃ target m, d.node? (start ++ [name]) = some (.link target) ∧
      d.Way {} m (if (⟨target⟩ : Path).isAbsolute then [] else start) (Disk.names target ++ rest) location := by
  cases h with
  | blank blank => exact absurd blank o.not_blank
  | up => exact absurd rfl o.not_up
  | through _ there k => exact .inl ⟨_, there, k⟩
  | file _ there => exact .inr (.inl ⟨_, _, there, rfl⟩)
  | new _ fresh => cases fresh
  | link _ stays => cases stays
  | jump _ there absolute _ k => exact .inr (.inr ⟨_, _, there, by rwa [if_pos absolute]⟩)
  | turn _ there relative _ k => exact .inr (.inr ⟨_, _, there, by rwa [if_neg relative]⟩)

/-- A way along no name that counts stays where it is. -/
theorem stays (h : d.Way arrival n start names location) (e : counting names = []) : location = start := by
  induction names with
  | nil =>
    cases h
    rfl
  | cons first names ih =>
    by_cases blank : first = "" ∨ first = "."
    · exact ih (h.behind_blank blank) (by rwa [counting_of_blank blank] at e)
    · rw [counting_cons blank] at e
      cases e

/-- Any other way begins with the first of them. -/
private theorem skip (h : d.Way arrival n start names location) (e : counting names = name :: rest) :
    ∃ names', counting names' = rest ∧ d.Way arrival n start (name :: names') location := by
  induction names with
  | nil => cases e
  | cons first names ih =>
    by_cases blank : first = "" ∨ first = "."
    · exact ih (h.behind_blank blank) (by rwa [counting_of_blank blank] at e)
    · rw [counting_cons blank, List.cons.injEq] at e
      obtain ⟨rfl, e⟩ := e
      exact ⟨names, e, h⟩

/-- Ways that follow links and find all names lead to one place. -/
private theorem unique (h : d.Way {} n start names location) (k : d.Way {} n' start names' location')
    (e : counting names' = counting names) : location = location' := by
  induction h generalizing n' names' location' with
  | here => exact (k.stays e).symm
  | blank blank _ ih => exact ih k (e.trans (counting_of_blank blank _))
  | up _ ih =>
    rw [counting_cons (by simp)] at e
    obtain ⟨rest, e, k⟩ := k.skip e
    exact ih k.behind_up e
  | through o there _ ih =>
    rw [counting_cons o.not_blank] at e
    obtain ⟨rest, e, k⟩ := k.skip e
    rcases k.behind_ordinary o with ⟨_, _, k⟩ | ⟨_, _, there', -⟩ | ⟨_, _, there', -⟩
    · exact ih k e
    all_goals
      rw [there] at there'
      cases there'
  | file o there =>
    rw [counting_cons o.not_blank] at e
    obtain ⟨rest, e, k⟩ := k.skip e
    rcases k.behind_ordinary o with ⟨_, there', -⟩ | ⟨_, _, _, same⟩ | ⟨_, _, there', -⟩
    · rw [there] at there'
      cases there'
    · exact same.symm
    · rw [there] at there'
      cases there'
  | new _ fresh => cases fresh
  | link _ stays => cases stays
  | jump o there absolute _ _ ih =>
    rw [counting_cons o.not_blank] at e
    obtain ⟨rest, e, k⟩ := k.skip e
    rcases k.behind_ordinary o with ⟨_, there', -⟩ | ⟨_, _, there', -⟩ | ⟨_, _, there', k⟩
    all_goals
      rw [there] at there'
      cases there'
    rw [if_pos absolute] at k
    exact ih k (by rw [counting_append, counting_append, e])
  | turn o there relative _ _ ih =>
    rw [counting_cons o.not_blank] at e
    obtain ⟨rest, e, k⟩ := k.skip e
    rcases k.behind_ordinary o with ⟨_, there', -⟩ | ⟨_, _, there', -⟩ | ⟨_, _, there', k⟩
    all_goals
      rw [there] at there'
      cases there'
    rw [if_neg relative] at k
    exact ih k (by rw [counting_append, counting_append, e])

end Way

/-- The names of a path that count are its steps, without the root and a dot in front. -/
private theorem counting_names_eq (p : Path) : counting (Disk.names p.text) =
    (Path.stepsOf (Path.pieces p.text.toList)).map fun step => String.ofList (Path.ofComponents.word step) := by
  have word_component (piece : List Char) : Path.ofComponents.word (Path.component piece) = piece := by
    unfold Path.component
    split
    · rename_i h
      exact h.symm
    · split
      · rename_i h
        exact h.symm
      · exact String.toList_ofList
  have blank_eq (piece : List Char) :
      (!decide (String.ofList piece = "" ∨ String.ofList piece = ".")) = !Path.blank piece := by
    have dot : String.ofList piece = "." ↔ piece = ['.'] := by
      rw [← String.toList_inj, String.toList_ofList]
      rfl
    rw [Bool.eq_iff_iff]
    simp [Path.blank, dot]
  rw [counting, Disk.names, List.filter_map, Path.stepsOf, List.map_map]
  simp only [Function.comp_def, blank_eq, word_component]

/-- Equal paths have the same names that count. -/
private theorem counting_names (same : (p == q) = true) :
    counting (Disk.names p.text) = counting (Disk.names q.text) := by
  have steps_eq : Path.stepsOf (Path.pieces p.text.toList) = Path.stepsOf (Path.pieces q.text.toList) := by
    have h := Path.filter_components p
    rw [Path.beq_iff.1 same, Path.filter_components q, Path.isAbsolute_congr same] at h
    exact (List.append_cancel_left h).symm
  rw [counting_names_eq, counting_names_eq, steps_eq]

/-- Two spellings of a path that lead to something lead to the same place. -/
theorem locate_congr (same : (p == q) = true) (hp : d.locate p = .ok location) (hq : d.locate q = .ok location') :
    location = location' := by
  have h := (locate_iff.1 hp).2
  have k := (locate_iff.1 hq).2
  rw [Disk.origin, ← Path.isAbsolute_congr same] at k
  exact h.unique k (counting_names (BEq.symm same))

end ScriptBundler.Disk
