import Mathlib.Data.List.Infix
import ScriptBundler.Proofs.Disk.Tree

/-!
# Copies of trees

Two directories hold the same tree if all names lead from both to the same, apart from times (`SameTree`). A copy that is
made node by node is the same tree (`Copies.sameTree`).
-/

namespace ScriptBundler

/-- A node with its time forgotten. -/
def Node.timeless : Node → Node
  | .file content _ => .file content 0
  | .directory _ => .directory 0
  | .link target => .link target

namespace Disk

variable {d : Disk} {p q : Path} {k l : Location} {name : String} {names : List String} {arrival : Arrival}

/-- What a path leads to, apart from times. -/
def sight (d : Disk) (p : Path) (arrival : Arrival := {}) : Option Node := (d.stat p arrival).toOption.map Node.timeless

/-- The names that a directory lists, if the path leads to one. -/
def listing (d : Disk) (p : Path) : List String := (d.list p).toOption.getD []

/-- All names lead from both directories to the same, apart from times and from the order of what is listed. -/
structure SameTree (d : Disk) (p q : Path) : Prop where
  sight : ∀ names, (∀ name ∈ names, IsName name) → ∀ follow,
    d.sight (p.under names) ⟨follow, false⟩ = d.sight (q.under names) ⟨follow, false⟩
  listing : ∀ names, (∀ name ∈ names, IsName name) → (d.listing (p.under names)).Perm (d.listing (q.under names))

/-- Sorted names do not depend on the order in which they were listed. -/
theorem mergeSort_eq_of_perm {names names' : List String} (h : names.Perm names') :
    names.mergeSort (fun a b => a ≤ b) = names'.mergeSort fun a b => a ≤ b := by
  have sorted (names : List String) : (names.mergeSort fun a b => a ≤ b).Pairwise (· ≤ ·) := by
    have ordered : (names.mergeSort fun a b => a ≤ b).Pairwise fun a b => decide (a ≤ b) = true :=
      List.pairwise_mergeSort (fun a b c => by simpa using String.le_trans) (fun a b => by simpa using String.le_total a b)
        names
    simpa using ordered
  refine List.Perm.eq_of_pairwise (fun _ _ _ _ => String.le_antisymm) (sorted _) (sorted _) ?_
  exact ((List.mergeSort_perm _ _).trans h).trans (List.mergeSort_perm _ _).symm

/-! ### Disks without links -/

theorem unlinked_of_nodes (h : ∀ entry ∈ d.nodes, ∀ target, entry.2 ≠ .link target) : d.Unlinked := by
  intro k target e
  by_cases top : k = []
  · rw [top] at e
    cases e
  · exact h _ (mem_nodes_of_node? top e) target rfl

private theorem timeless_eq_directory {node : Option Node} :
    node.map Node.timeless = some (.directory 0) ↔ ∃ time, node = some (.directory time) := by
  rcases node with _ | (_ | _ | _) <;> simp [Node.timeless]

instance : Decidable (d.Solid k) :=
  decidable_of_iff (∀ front ∈ k.inits, (d.node? front).map Node.timeless = some (.directory 0)) <| by
    simp only [List.mem_inits, timeless_eq_directory]
    rfl

instance : DecidablePred Ordinary := fun name =>
  decidable_of_iff (¬ (name = "" ∨ name = ".") ∧ name ≠ ".." ∧ ¬ name.utf8ByteSize > 255)
    ⟨fun ⟨h, h', h''⟩ => ⟨h, h', h''⟩, fun h => ⟨h.not_blank, h.not_up, h.short⟩⟩

instance : DecidablePred Askable := fun p =>
  decidable_of_iff (¬ p.text.toList.contains '\x00' = true ∧ p.text ≠ "" ∧ ¬ p.text.utf8ByteSize > 4095)
    ⟨fun ⟨h, h', h''⟩ => ⟨h, h', h''⟩, fun h => ⟨h.valid, h.nonempty, h.short⟩⟩

instance : Decidable (d.Standing k) :=
  decidable_of_iff (d.Solid k.dropLast ∧ d.node? k ≠ none ∧ (∀ name ∈ k, IsName name) ∧ (∀ name ∈ k, Ordinary name) ∧
    Askable (pathOf k))
    ⟨fun ⟨h, h', h'', o, ask⟩ => ⟨h, h', h'', o, ask⟩, fun h => ⟨h.solid, h.there, h.named, h.ordinary, h.askable⟩⟩

/-! ### What is asked of a path -/

theorem isFile_eq_sight : d.isFile p = match d.sight p with
    | some (.file ..) => true
    | _ => false := by
  unfold isFile Disk.sight
  rcases d.stat p with e | ⟨_ | _ | _⟩ <;> rfl

theorem exists_eq_sight : d.exists p = (d.sight p).isSome := by
  unfold Disk.exists Disk.sight
  rcases d.stat p with e | node <;> rfl

theorem toOption_readBytes_eq_sight : (d.readBytes p).toOption = match d.sight p with
    | some (.file content _) => some content
    | _ => none := by
  unfold readBytes Disk.sight
  rcases d.stat p with e | ⟨_ | _ | _⟩ <;> rfl

/-! ### Copies -/

/-- Without links a path leads to its place, if anything stands there. -/
private theorem locate_pathOf_of_tidy (hu : d.Unlinked) (tidy : ∀ entry ∈ d.nodes, d.Standing entry.1)
    (hn : ∀ name ∈ k, IsName name) (there : d.node? k ≠ none) : d.locate (pathOf k) arrival = .ok k := by
  rcases List.eq_nil_or_concat k with rfl | ⟨front, last, rfl⟩
  · exact (solid_nil d).locate hn (by simp) ⟨by decide, by decide, by decide⟩
  · rw [List.concat_eq_append] at there ⊢
    obtain ⟨node, e⟩ := Option.ne_none_iff_exists'.1 there
    exact (tidy _ (mem_nodes_of_node? (by simp) e)).locate fun _ target => hu _ target

private theorem sight_pathOf (hu : d.Unlinked) (tidy : ∀ entry ∈ d.nodes, d.Standing entry.1)
    (hn : ∀ name ∈ k, IsName name) : d.sight (pathOf k) arrival = (d.node? k).map Node.timeless := by
  rcases there : d.node? k with _ | node
  · rcases e : d.stat (pathOf k) arrival with error | node
    · rw [Disk.sight, e]
      rfl
    · obtain ⟨location, located, e⟩ := stat_eq_ok.1 e
      have back := ((locate_pathOf hu hn).1 located).2.eq_append
      rw [back, List.nil_append, there] at e
      cases e
  · have located : d.locate (pathOf k) arrival = .ok k := locate_pathOf_of_tidy hu tidy hn (by simp [there])
    rw [Disk.sight, stat_eq_ok.2 ⟨k, located, there⟩]
    rfl

private theorem listing_pathOf (hu : d.Unlinked) (tidy : ∀ entry ∈ d.nodes, d.Standing entry.1)
    (hn : ∀ name ∈ k, IsName name) : d.listing (pathOf k) = match (d.node? k).map Node.timeless with
      | some (.directory _) => d.namesIn k
      | _ => [] := by
  unfold Disk.listing list
  rcases there : d.node? k with _ | node
  · rcases located : d.locate (pathOf k) with error | location
    · rfl
    · have back := ((locate_pathOf hu hn).1 located).2.eq_append
      rw [back, List.nil_append]
      simp only [bind, Except.bind, there]
      rfl
  · rw [locate_pathOf_of_tidy hu tidy hn (by simp [there])]
    simp only [bind, Except.bind, there]
    cases node <;> rfl

/-- All that stands below a place stands below the other one, too. -/
def Copies (d : Disk) (k l : Location) : Prop := ∀ entry ∈ d.nodes, k <+: entry.1 →
  (d.node? (l ++ entry.1.drop k.length)).map Node.timeless = some entry.2.timeless

instance : Decidable (d.Copies k l) := inferInstanceAs (Decidable (∀ entry ∈ d.nodes, _))

private theorem Copies.node? {node : Node} (h : d.Copies k l) (hk : k ≠ []) (there : d.node? (k ++ names) = some node) :
    (d.node? (l ++ names)).map Node.timeless = some node.timeless := by
  have copied := h _ (mem_nodes_of_node? (by simp [hk]) there) (List.prefix_append _ _)
  rwa [List.drop_left] at copied

/-- Without links, places whose trees are copied from each other hold the same tree. -/
theorem Copies.sameTree (hd : d.Regular) (hu : d.Unlinked) (tidy : ∀ entry ∈ d.nodes, d.Standing entry.1)
    (forth : d.Copies k l) (back : d.Copies l k) (hk : k ≠ []) (hl : l ≠ []) (hkn : ∀ name ∈ k, IsName name)
    (hln : ∀ name ∈ l, IsName name) : d.SameTree (pathOf k) (pathOf l) := by
  have node_eq (names : List String) :
      (d.node? (k ++ names)).map Node.timeless = (d.node? (l ++ names)).map Node.timeless := by
    rcases e : d.node? (k ++ names) with _ | node
    · rcases e' : d.node? (l ++ names) with _ | node
      · rfl
      · have copied := back.node? hl e'
        rw [e] at copied
        cases copied
    · exact (forth.node? hk e).symm
  have named {k : Location} {names : List String} (hk : ∀ name ∈ k, IsName name) (hn : ∀ name ∈ names, IsName name) :
      ∀ name ∈ k ++ names, IsName name := List.forall_mem_append.2 ⟨hk, hn⟩
  refine ⟨fun names hn follow => ?_, fun names hn => ?_⟩
  · rw [under_pathOf hkn hn, under_pathOf hln hn, sight_pathOf hu tidy (named hkn hn), sight_pathOf hu tidy (named hln hn),
      node_eq]
  · have same : (d.namesIn (k ++ names)).Perm (d.namesIn (l ++ names)) := by
      refine (List.perm_ext_iff_of_nodup hd.nodup_namesIn hd.nodup_namesIn).2 fun name => ?_
      have e := node_eq (names ++ [name])
      rw [mem_namesIn, mem_namesIn, List.append_assoc, List.append_assoc]
      rcases h : d.node? (k ++ (names ++ [name])) with _ | _ <;> rcases h' : d.node? (l ++ (names ++ [name])) with _ | _ <;>
        simp [h, h'] at e ⊢
    rw [under_pathOf hkn hn, under_pathOf hln hn, listing_pathOf hu tidy (named hkn hn), listing_pathOf hu tidy (named hln hn)]
    rw [node_eq]
    split
    · exact same
    · exact .rfl

end Disk

end ScriptBundler
