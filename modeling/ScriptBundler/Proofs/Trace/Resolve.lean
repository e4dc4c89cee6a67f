import ScriptBundler.Proofs.Disk.Place
import ScriptBundler.Trace.Resolve

/-!
# Where requests lead

Whatever a request is resolved by, it leads to a file of the disk under its absolute path without links
(`Resolver.exists_of_find`). So there are only so many files to which requests can lead (`Resolver.find_mem_paths`), and
their paths are direct (`Resolver.find_direct`).
-/

namespace ScriptBundler

/-- The places of a disk, as paths. -/
def Disk.paths (d : Disk) : List Path := d.nodes.map fun (location, _) => pathOf location

variable {d : Disk} {p q : Path}

/-- In a list that is in order, the first element with a value is the one in front of which there is no other. -/
theorem findSome?_eq_some_iff_of_pairwise {α β : Type} {f : α → Option β} {before : α → α → Prop} {l : List α} {b : β}
    (asymm : ∀ x y, before x y → ¬ before y x) (ordered : l.Pairwise before) :
    l.findSome? f = some b ↔ ∃ a ∈ l, f a = some b ∧ ∀ x ∈ l, before x a → f x = none := by
  rw [List.findSome?_eq_some_iff]
  constructor
  · rintro ⟨front, a, back, rfl, ha, none_before⟩
    rw [List.pairwise_append, List.pairwise_cons] at ordered
    refine ⟨a, by simp, ha, fun x hx hxa => ?_⟩
    rcases List.mem_append.1 hx with hx | hx
    · exact none_before x hx
    · rcases List.mem_cons.1 hx with rfl | hx
      · exact absurd hxa (asymm x x hxa)
      · exact absurd hxa (asymm a x (ordered.2.1.1 x hx))
  · rintro ⟨a, hmem, ha, none_before⟩
    obtain ⟨front, back, rfl⟩ := List.append_of_mem hmem
    rw [List.pairwise_append] at ordered
    exact ⟨front, a, back, rfl, ha, fun x hx =>
      none_before x (List.mem_append_left _ hx) (ordered.2.2 x hx a List.mem_cons_self)⟩

/-- What is found is told by its spelling. -/
theorem Path.eq_some_iff {found : Option Path} {text : String} :
    found = some ⟨text⟩ ↔ found.map (·.text) = some text := by
  rcases found with _ | spelled
  · exact iff_of_false nofun nofun
  · rw [Option.map_some, Option.some_inj, Option.some_inj]
    exact ⟨congrArg Path.text, fun e => e ▸ rfl⟩

namespace Disk

/-- A file has a place, and the path of the place has no links. -/
theorem exists_place (h : d.isFile p = true) : ∃ location content time, d.locate p = .ok location ∧
    d.node? location = some (.file content time) ∧ canonical d p = pathOf location := by
  unfold isFile at h
  split at h
  · rename_i content time hs
    obtain ⟨location, hl, hn⟩ := stat_eq_ok.1 hs
    exact ⟨location, content, time, hl, hn, by rw [canonical, canonical?, hl, Option.getD_some]⟩
  · cases h

/-- The root is no file, and all other files are among the nodes. -/
private theorem canonical_mem_paths (h : d.isFile p = true) : canonical d p ∈ d.paths := by
  obtain ⟨location, content, time, -, hn, e⟩ := exists_place h
  rw [e]
  cases location with
  | nil => cases hn
  | cons name names =>
    obtain ⟨row, hrow, k⟩ := List.lookup_isSome_iff.1 (Option.isSome_of_eq_some hn)
    rw [beq_iff_eq] at k
    exact List.mem_map.2 ⟨row, hrow, by rw [k]⟩

theorem canonical_direct (hd : d.Grounded) (h : d.isFile p = true) : (canonical d p).Direct := by
  obtain ⟨location, content, time, hl, -, e⟩ := exists_place h
  rw [e]
  exact direct_pathOf (isName_of_locate hd hl)

end Disk

private theorem exists_of_resolveFile (h : resolveFile d p = some q) : ∃ c, d.isFile c = true ∧ canonical d c = q := by
  unfold resolveFile at h
  split at h
  · rename_i hp
    cases h
    exact ⟨p, hp, rfl⟩
  · obtain ⟨c, hc, rfl⟩ := Option.map_eq_some_iff.1 h
    exact ⟨c, List.find?_some hc, rfl⟩

private theorem exists_of_resolvePackage (h : resolvePackage d p = some q) :
    ∃ c, d.isFile c = true ∧ canonical d c = q := by
  unfold resolvePackage at h
  split at h
  · rcases Option.or_eq_some_iff.1 h with h | ⟨-, h⟩
    · obtain ⟨e, -, he⟩ := List.exists_of_findSome?_eq_some h
      exact exists_of_resolveFile he
    · exact exists_of_resolveFile h
  · exact exists_of_resolveFile h

namespace Resolver

variable {r : Resolver} {request : String}

private theorem exists_of_findAlias (h : r.findAlias d request = some q) :
    ∃ c, d.isFile c = true ∧ canonical d c = q := by
  obtain ⟨⟨name, targets⟩, -, h⟩ := List.exists_of_findSome?_eq_some h
  obtain ⟨rest, -, h⟩ := Option.bind_eq_some_iff.1 h
  obtain ⟨target, -, h⟩ := List.exists_of_findSome?_eq_some h
  exact exists_of_resolveFile h

private theorem exists_of_findPackage {directory : Path} (h : r.findPackage d directory request = some q) :
    ∃ c, d.isFile c = true ∧ canonical d c = q := by
  obtain ⟨dir, -, h⟩ := List.exists_of_findSome?_eq_some h
  exact exists_of_resolvePackage h

/-- A request leads to the path without links of a file. -/
theorem exists_of_find (h : r.find d p request = some q) : ∃ c, d.isFile c = true ∧ canonical d c = q := by
  unfold find at h
  split at h
  · exact exists_of_resolveFile h
  · rcases Option.or_eq_some_iff.1 h with h | ⟨-, h⟩
    · exact exists_of_findAlias h
    · exact exists_of_findPackage h

/-- A request leads to a file of the disk. -/
theorem find_mem_paths (h : r.find d p request = some q) : q ∈ d.paths := by
  obtain ⟨c, hc, rfl⟩ := exists_of_find h
  exact Disk.canonical_mem_paths hc

theorem find_direct (hd : d.Grounded) (h : r.find d p request = some q) : q.Direct := by
  obtain ⟨c, hc, rfl⟩ := exists_of_find h
  exact Disk.canonical_direct hd hc

/-- What is not remembered is found on the disk. -/
theorem resolve_eq_find {rs : Resolutions} (fresh : rs.get? p request = none) :
    (r.resolve d p request rs).1 = r.find d p request := by
  unfold resolve
  simp only [bind, StateT.bind, get, getThe, MonadStateOf.get, StateT.get, pure, fresh]
  rfl

theorem find_eq_of_bare (bare : isPathRequest request = false) :
    r.find d p request = (r.findAlias d request).or (r.findPackage d (p.parent?.getD r.root) request) := by
  unfold find
  rw [bare]
  rfl

end Resolver

end ScriptBundler
