import Mathlib.Data.List.Nodup
import ScriptBundler.Proofs.Path.Under
import ScriptBundler.Proofs.Trace.Twice

/-!
# Directories and what stands in them

A place is solid if directories stand there and everywhere above it (`Solid`); what can be located stands in such a place
(`Way.solid`). The path of a solid place leads there (`Solid.locate`), and the path of what stands in it names it
(`Standing.locate`). A directory lists each name once, and exactly the names of what stands in it (`Standing.list`,
`Regular.nodup_namesIn`, `mem_namesIn`).
-/

namespace ScriptBundler.Disk

variable {d : Disk} {p : Path} {arrival : Arrival} {start location k : Location} {name : String} {names : List String}
  {n : Nat} {node : Node}

instance : DecidablePred IsName := fun _ => inferInstanceAs (Decidable (_ ∧ _))

/-- Names are proper, no place is taken twice, and the working directory is a directory in directories. -/
structure Regular (d : Disk) : Prop where
  grounded : d.Grounded
  named : ∀ entry ∈ d.nodes, ∀ name ∈ entry.1, IsName name
  distinct : (d.nodes.map (·.1)).Nodup
  anchored : d.Anchored

/-- Directories stand at a place and everywhere above it. -/
def Solid (d : Disk) (k : Location) : Prop := ∀ front, front <+: k → ∃ time, d.node? front = some (.directory time)

theorem solid_nil (d : Disk) : d.Solid [] := by
  intro front hf
  rw [List.prefix_nil.1 hf]
  exact ⟨0, rfl⟩

theorem Solid.mono (h : d.Solid k) (hl : location <+: k) : d.Solid location := fun front hf => h front (hf.trans hl)

theorem Solid.concat {time : Nat} (h : d.Solid k) (there : d.node? (k ++ [name]) = some (.directory time)) :
    d.Solid (k ++ [name]) := by
  intro front hf
  rcases List.prefix_concat_iff.1 hf with rfl | hf
  · exact ⟨time, there⟩
  · exact h front hf

theorem Solid.of_above {time : Nat} (h : d.Solid k.dropLast) (there : d.node? k = some (.directory time)) : d.Solid k := by
  rcases List.eq_nil_or_concat k with rfl | ⟨front, last, rfl⟩
  · exact solid_nil d
  · rw [List.concat_eq_append] at h there ⊢
    rw [List.dropLast_concat] at h
    exact h.concat there

theorem Anchored.solid (h : d.Anchored) : d.Solid d.workingDirectory := by
  intro front hf
  by_cases root : front = []
  · rw [root]
    exact ⟨0, rfl⟩
  · exact h front hf root

/-! ### Ways along directories -/

/-- What a walk arrives at is in directories if it starts in them. -/
theorem Way.solid (h : d.Way arrival n start names location) (hs : d.Solid start) : d.Solid location.dropLast := by
  induction h with
  | here => exact hs.mono (List.dropLast_prefix _)
  | blank _ _ ih => exact ih hs
  | up _ ih => exact ih (hs.mono (List.dropLast_prefix _))
  | through _ there _ ih => exact ih (hs.concat there)
  | file | new | link => rwa [List.dropLast_concat]
  | jump _ _ _ _ _ ih => exact ih (solid_nil d)
  | turn _ _ _ _ _ ih => exact ih hs

theorem Anchored.solid_origin (h : d.Anchored) (p : Path) : d.Solid (d.origin p) := by
  unfold origin
  split
  · exact solid_nil d
  · exact h.solid

theorem Anchored.solid_above (h : d.Anchored) (e : d.locate p arrival = .ok location) : d.Solid location.dropLast :=
  (locate_iff.1 e).2.solid (h.solid_origin p)

/-- Names along which a walk arrives are not too long. -/
theorem Way.ordinary (h : d.Way arrival n start names location) : ∀ name ∈ names, IsName name → Ordinary name := by
  induction h with
  | here => simp
  | blank blank _ ih =>
    rw [List.forall_mem_cons]
    exact ⟨fun named => absurd blank (not_or.2 ⟨named.1, named.2.1⟩), ih⟩
  | up _ ih =>
    rw [List.forall_mem_cons]
    exact ⟨fun named => absurd rfl named.2.2.1, ih⟩
  | through o _ _ ih =>
    rw [List.forall_mem_cons]
    exact ⟨fun _ => o, ih⟩
  | file o | new o | link o => simpa using fun _ => o
  | jump o _ _ _ _ ih | turn o _ _ _ _ ih =>
    rw [List.forall_mem_cons]
    exact ⟨fun _ => o, fun name hname => ih name (List.mem_append_right _ hname)⟩

/-- A name of a directory leads into it. -/
private theorem Way.behind_directory {rest : List String} {time : Nat} (o : Ordinary name)
    (there : d.node? (start ++ [name]) = some (.directory time)) (h : d.Way arrival n start (name :: rest) location) :
    d.Way arrival n (start ++ [name]) rest location := by
  cases h with
  | blank blank => exact absurd blank o.not_blank
  | up => exact absurd rfl o.not_up
  | through _ _ k => exact k
  | file _ other | new _ _ other | link _ _ other | jump _ other | turn _ other => simp [there] at other

namespace Solid

private theorem way_append {rest : List String} (h : d.Solid (start ++ names)) (o : ∀ name ∈ names, Ordinary name)
    (k : d.Way arrival n (start ++ names) rest location) : d.Way arrival n start (names ++ rest) location := by
  induction names generalizing start with
  | nil => simpa using k
  | cons name names ih =>
    rw [List.forall_mem_cons] at o
    rw [List.append_cons] at h k
    obtain ⟨time, there⟩ := h (start ++ [name]) (List.prefix_append _ _)
    exact .through o.1 there (ih h o.2 k)

theorem behind_append {rest : List String} (h : d.Solid (start ++ names)) (o : ∀ name ∈ names, Ordinary name)
    (k : d.Way arrival n start (names ++ rest) location) : d.Way arrival n (start ++ names) rest location := by
  induction names generalizing start with
  | nil => simpa using k
  | cons name names ih =>
    rw [List.forall_mem_cons] at o
    rw [List.append_cons] at h ⊢
    obtain ⟨time, there⟩ := h (start ++ [name]) (List.prefix_append _ _)
    exact ih h o.2 (k.behind_directory o.1 there)

end Solid

/-! ### Paths of places -/

theorem joinPieces_concat {ps : List (List Char)} {piece : List Char} (h : ps ≠ []) :
    Path.joinPieces (ps ++ [piece]) = Path.joinPieces ps ++ '/' :: piece := by
  induction ps with
  | nil => exact absurd rfl h
  | cons first ps ih =>
    cases ps with
    | nil => rfl
    | cons next ps =>
      rw [List.cons_append, List.cons_append, Path.joinPieces, ← List.cons_append, ih (List.cons_ne_nil _ _), Path.joinPieces,
        List.append_assoc, List.cons_append]

theorem text_pathOf_ne (k : Location) : (pathOf k).text ≠ "" := by
  intro e
  have spelled := toList_pathOf k
  rw [e] at spelled
  cases spelled

/-- The path of a place goes on along the name of what stands there. -/
theorem join_pathOf (h : ∀ name ∈ k, IsName name) (hn : IsName name) : (pathOf k).join ⟨name⟩ = pathOf (k ++ [name]) := by
  have spelled : ((pathOf k).join ⟨name⟩).text.toList = (pathOf (k ++ [name])).text.toList := by
    rw [Path.toList_join (text_pathOf_ne k) hn, Path.opening]
    by_cases root : k = []
    · subst root
      rw [toList_pathOf, toList_pathOf]
      simp [Path.joinPieces]
    · rw [if_neg (getLast?_pathOf h root), toList_pathOf, toList_pathOf, List.map_append, List.map_singleton,
        joinPieces_concat (by simpa using root)]
      simp
  exact congrArg Path.mk (String.toList_inj.1 spelled)

theorem under_pathOf (h : ∀ name ∈ k, IsName name) (hn : ∀ name ∈ names, IsName name) :
    (pathOf k).under names = pathOf (k ++ names) := by
  induction names generalizing k with
  | nil => simp
  | cons name names ih =>
    rw [List.forall_mem_cons] at hn
    have named : ∀ next ∈ k ++ [name], IsName next := List.forall_mem_append.2 ⟨h, by simpa using hn.1⟩
    rw [Path.under_cons, join_pathOf h hn.1, ih named hn.2, List.append_assoc, List.singleton_append]

/-- A path of which more may be asked for may be asked for itself. -/
private theorem Askable.mono {q : Path} (h : Askable q) (hp : p.text ≠ "") (front : p.text.toList <+: q.text.toList) :
    Askable p where
  valid zero := h.valid (by simpa using front.mem (by simpa using zero))
  nonempty := hp
  short long := h.short (by
    obtain ⟨rest, e⟩ := front
    have size : q.text.utf8ByteSize = p.text.utf8ByteSize + (String.ofList rest).utf8ByteSize := by
      rw [← String.utf8ByteSize_append]
      congr 1
      exact String.toList_inj.1 (by simp [← e])
    omega)

private theorem askable_pathOf (h : Askable (pathOf (k ++ names))) (hn : ∀ name ∈ k ++ names, IsName name) :
    Askable (pathOf k) := by
  refine h.mono (text_pathOf_ne k) ?_
  rw [List.forall_mem_append] at hn
  rw [← under_pathOf hn.1 hn.2]
  by_cases none : names = []
  · rw [none]
    exact List.prefix_rfl
  · rw [Path.toList_under (text_pathOf_ne k) hn.2 none]
    refine List.IsPrefix.trans ?_ (List.prefix_append _ _)
    unfold Path.opening
    split
    · exact List.prefix_rfl
    · exact List.prefix_append _ _

private theorem way_names_pathOf (h : ∀ name ∈ k, IsName name) :
    d.Way arrival n start (Disk.names (pathOf k).text) location ↔ d.Way arrival n start k location := by
  rw [names_pathOf h]
  by_cases root : k = []
  · rw [if_pos root, root]
    exact ⟨fun way => (way.behind_blank (.inl rfl)).behind_blank (.inl rfl), fun way => .blank (.inl rfl) (.blank (.inl rfl) way)⟩
  · rw [if_neg root]
    exact ⟨fun way => way.behind_blank (.inl rfl), fun way => .blank (.inl rfl) way⟩

theorem locate_pathOf_iff (h : ∀ name ∈ k, IsName name) : d.locate (pathOf k) arrival = .ok location ↔
    Askable (pathOf k) ∧ d.Way arrival 40 [] k location := by
  rw [locate_iff, origin, if_pos (direct_pathOf h).absolute, way_names_pathOf h]

/-! ### What stands in directories -/

theorem mem_nodes_of_node? (hne : k ≠ []) (h : d.node? k = some node) : (k, node) ∈ d.nodes := by
  rw [node?_of_ne_nil hne] at h
  obtain ⟨front, back, e, -⟩ := List.lookup_eq_some_iff.1 h
  rw [e]
  simp

private theorem node?_ne_none_of_mem (hne : k ≠ []) (h : (k, node) ∈ d.nodes) : d.node? k ≠ none := by
  rw [node?_of_ne_nil hne, Ne, List.lookup_eq_none_iff]
  intro none
  simpa using none _ h

private theorem listed_iff {l : Location} : (match l.getLast? with
    | some name => if l.dropLast = k then some name else none
    | none => none) = some name ↔ l = k ++ [name] := by
  rcases List.eq_nil_or_concat l with rfl | ⟨front, last, rfl⟩
  · simp
  · rw [List.concat_eq_append, List.getLast?_concat, List.dropLast_concat]
    dsimp only
    rw [Option.ite_none_right_eq_some, Option.some_inj, ← List.concat_eq_append, ← List.concat_eq_append, List.concat_inj]

theorem mem_namesIn : name ∈ d.namesIn k ↔ d.node? (k ++ [name]) ≠ none := by
  have hne : k ++ [name] ≠ [] := by simp
  unfold namesIn
  rw [List.mem_filterMap]
  constructor
  · rintro ⟨⟨l, node⟩, hmem, listed⟩
    rw [← listed_iff.1 listed] at hne ⊢
    exact node?_ne_none_of_mem hne hmem
  · intro there
    obtain ⟨node, e⟩ := Option.ne_none_iff_exists'.1 there
    exact ⟨_, mem_nodes_of_node? hne e, listed_iff.2 rfl⟩

theorem exists_namesIn_of_list (e : d.list p = .ok names) : ∃ k, names = d.namesIn k := by
  rw [list] at e
  obtain ⟨location, -, e⟩ := Action.bind_eq_ok.1 e
  split at e
  · exact ⟨location, (Except.ok.inj e).symm⟩
  · cases e

theorem Regular.isName_of_mem_namesIn (hd : d.Regular) (h : name ∈ d.namesIn k) : IsName name := by
  obtain ⟨node, e⟩ := Option.ne_none_iff_exists'.1 (mem_namesIn.1 h)
  exact hd.named _ (mem_nodes_of_node? (by simp) e) name (by simp)

theorem Regular.nodup_namesIn (hd : d.Regular) : (d.namesIn k).Nodup := by
  unfold namesIn
  refine List.Pairwise.filterMap _ ?_ (List.pairwise_map.1 hd.distinct)
  intro entry entry' hne name listed name' listed' e
  subst e
  exact hne ((listed_iff.1 listed).trans (listed_iff.1 listed').symm)

/-- The path of a solid place leads there. -/
theorem Solid.locate (h : d.Solid k) (hn : ∀ name ∈ k, IsName name) (o : ∀ name ∈ k, Ordinary name)
    (ask : Askable (pathOf k)) : d.locate (pathOf k) arrival = .ok k := by
  have way : d.Way arrival 40 [] (k ++ []) k := (show d.Solid ([] ++ k) from h).way_append o .here
  rw [List.append_nil] at way
  exact (locate_pathOf_iff hn).2 ⟨ask, way⟩

/-- Something stands at a place, in directories, and its path may be asked for. -/
structure Standing (d : Disk) (k : Location) : Prop where
  solid : d.Solid k.dropLast
  there : d.node? k ≠ none
  named : ∀ name ∈ k, IsName name
  ordinary : ∀ name ∈ k, Ordinary name
  askable : Askable (pathOf k)

namespace Standing

/-- So it is with all directories above. -/
theorem mono (h : d.Standing k) (hl : location <+: k) : d.Standing location := by
  by_cases same : location = k
  · rwa [same]
  have above : location <+: k.dropLast := by
    rcases List.eq_nil_or_concat k with rfl | ⟨front, last, rfl⟩
    · exact hl
    · rw [List.concat_eq_append] at hl same ⊢
      rw [List.dropLast_concat]
      exact (List.prefix_concat_iff.1 hl).resolve_left same
  obtain ⟨time, there⟩ := h.solid location above
  obtain ⟨rest, rfl⟩ := hl
  exact ⟨h.solid.mono ((List.dropLast_prefix _).trans above), by simp [there],
    fun name hname => h.named name (List.mem_append_left _ hname),
    fun name hname => h.ordinary name (List.mem_append_left _ hname), askable_pathOf h.askable h.named⟩

private theorem locate_above (h : d.Standing (k ++ [name])) : d.locate (pathOf k) arrival = .ok k := by
  have above := h.mono (List.prefix_append k [name])
  have solid := h.solid
  rw [List.dropLast_concat] at solid
  exact solid.locate above.named above.ordinary above.askable

private theorem directory_above (h : d.Standing (k ++ [name])) : ∃ time, d.node? k = some (.directory time) := by
  have solid := h.solid
  rw [List.dropLast_concat] at solid
  exact solid k List.prefix_rfl

theorem isDirectory (h : d.Standing (k ++ [name])) : d.isDirectory (pathOf k) = true := by
  obtain ⟨time, there⟩ := h.directory_above
  rw [Disk.isDirectory, stat_eq_ok.2 ⟨k, h.locate_above, there⟩]

theorem list (h : d.Standing (k ++ [name])) : d.list (pathOf k) = .ok (d.namesIn k) := by
  obtain ⟨time, there⟩ := h.directory_above
  exact list_of_locate h.locate_above there

/-- A path leads to what stands there, unless that is a link which is followed. -/
theorem locate (h : d.Standing (k ++ [name]))
    (own : arrival.follow = true → ∀ target, d.node? (k ++ [name]) ≠ some (.link target)) :
    d.locate (pathOf (k ++ [name])) arrival = .ok (k ++ [name]) := by
  have solid := h.solid
  rw [List.dropLast_concat] at solid
  have last : d.Way arrival 40 ([] ++ k) [name] (k ++ [name]) := by
    have o := h.ordinary name (by simp)
    rcases e : d.node? (k ++ [name]) with _ | ⟨_ | _ | target⟩
    · exact absurd e h.there
    · exact .file o e
    · exact .through o e .here
    · exact .link o (by simpa using fun follows => own follows target e) e
  exact (locate_pathOf_iff h.named).2
    ⟨h.askable, solid.way_append (fun name hname => h.ordinary name (List.mem_append_left _ hname)) last⟩

theorem isNamed (h : d.Standing (k ++ [name])) : d.isNamed (pathOf (k ++ [name])) = true :=
  isNamed_of_locate (h.locate (by simp)) h.there

end Standing

end ScriptBundler.Disk
