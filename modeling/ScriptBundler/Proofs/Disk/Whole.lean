import ScriptBundler.Proofs.Disk.Tree

/-!
# Disks on which every link leads to something

What has a name exists then (`Whole.exists_of_isNamed`), as long as its path does not run into too many links: a path may
go round in circles any number of times. What a directory lists has a name, and so have its dots (`Whole.isNamed_join`).
-/

namespace ScriptBundler.Disk

variable {d : Disk} {p : Path} {arrival : Arrival} {start location k : Location} {name : String} {names rest : List String}
  {n : Nat} {time : Nat}

private theorem Ordinary.nonempty (o : Ordinary name) : name ≠ "" := fun e => o.not_blank (.inl e)

/-! ### Ways that go on -/

/-- Where a walk arrives there is something, unless it may be new. -/
private theorem Way.there (h : d.Way arrival n start names location) (old : arrival.fresh = false) (hs : d.Solid start) :
    d.node? location ≠ none := by
  induction h with
  | here =>
    obtain ⟨time, there⟩ := hs _ List.prefix_rfl
    simp [there]
  | blank _ _ ih => exact ih hs
  | up _ ih => exact ih (hs.mono (List.dropLast_prefix _))
  | through _ there _ ih => exact ih (hs.concat there)
  | file _ there => simp [there]
  | new _ fresh =>
    rw [old] at fresh
    cases fresh
  | link _ _ there => simp [there]
  | jump _ _ _ _ _ ih => exact ih (solid_nil d)
  | turn _ _ _ _ _ ih => exact ih hs

/-- A way to a directory goes on along more names, as they are met there. -/
private theorem Way.prolong (h : d.Way {} n start names k) (directory : d.node? k = some (.directory time))
    (hne : rest ≠ []) (on : ∀ m, d.Way arrival m k rest location) : d.Way arrival n start (names ++ rest) location := by
  induction h with
  | here => exact on _
  | blank blank _ ih => exact .blank blank (ih directory on)
  | up _ ih => exact .up (ih directory on)
  | through o there _ ih => exact .through o there (ih directory on)
  | file _ there =>
    rw [there] at directory
    cases directory
  | new _ fresh => cases fresh
  | link _ stays => cases stays
  | jump o there absolute _ _ ih =>
    have on := ih directory on
    rw [List.append_assoc] at on
    exact .jump o there absolute (by simp [hne]) on
  | turn o there relative _ _ ih =>
    have on := ih directory on
    rw [List.append_assoc] at on
    exact .turn o there relative (by simp [hne]) on

/-- An empty name at the end leads nowhere. -/
private theorem Way.trim (h : d.Way {} n start names k) (e : names = rest ++ [""]) : d.Way {} n start rest k := by
  have front {name : String} {names rest : List String} (hne : name ≠ "") (e : name :: names = rest ++ [""]) :
      ∃ behind, rest = name :: behind ∧ names = behind ++ [""] := by
    cases rest with
    | nil => exact absurd (List.cons.inj e).1 hne
    | cons first behind =>
      obtain ⟨rfl, behind_eq⟩ := List.cons.inj e
      exact ⟨behind, rfl, behind_eq⟩
  induction h generalizing rest with
  | here => simp at e
  | blank blank way ih =>
    cases rest with
    | nil =>
      obtain ⟨-, rfl⟩ := List.cons.inj e
      exact way
    | cons first rest =>
      obtain ⟨rfl, rest_eq⟩ := List.cons.inj e
      exact .blank blank (ih rest_eq)
  | up _ ih =>
    obtain ⟨behind, rfl, rest_eq⟩ := front (by simp) e
    exact .up (ih rest_eq)
  | through o there _ ih =>
    obtain ⟨behind, rfl, rest_eq⟩ := front o.nonempty e
    exact .through o there (ih rest_eq)
  | file o there =>
    obtain ⟨behind, rfl, rest_eq⟩ := front o.nonempty e
    simp at rest_eq
  | new _ fresh => cases fresh
  | link _ stays => cases stays
  | jump o there absolute _ _ ih =>
    obtain ⟨behind, rfl, rfl⟩ := front o.nonempty e
    exact .jump o there absolute (by simp) (ih (List.append_assoc ..).symm)
  | turn o there relative _ _ ih =>
    obtain ⟨behind, rfl, rfl⟩ := front o.nonempty e
    exact .turn o there relative (by simp) (ih (List.append_assoc ..).symm)

/-! ### Names in a directory -/

private theorem names_of_not_mem (hn : '/' ∉ name.toList) : Disk.names name = [name] := by
  rw [Disk.names, Path.pieces_of_not_mem hn, List.map_singleton, String.ofList_toList]

private theorem names_join (hp : p.text ≠ "") (hn : '/' ∉ name.toList) : ∃ front,
    Disk.names (p.join ⟨name⟩).text = front ++ [name] ∧
      (Disk.names p.text = front ∨ Disk.names p.text = front ++ [""]) := by
  have alone : (Path.pieces name.toList).map String.ofList = [name] := names_of_not_mem hn
  unfold Disk.names
  rw [Path.toList_join_of_relative hp (Path.isAbsolute_of_not_mem hn), Path.opening]
  split
  · rename_i slash
    obtain ⟨front, e⟩ := List.getLast?_eq_some_iff.1 slash
    refine ⟨(Path.pieces front).map String.ofList, ?_, .inr ?_⟩
    · rw [e, List.append_assoc, List.singleton_append, Path.pieces_append_slash, List.map_append, alone]
    · rw [e, Path.pieces_append_slash, List.map_append]
      rfl
  · refine ⟨_, ?_, .inl rfl⟩
    rw [List.append_assoc, List.singleton_append, Path.pieces_append_slash, List.map_append, alone]

/-- A name leads on from the directory to which a path leads. -/
private theorem locate_join (located : d.locate p = .ok k) (directory : d.node? k = some (.directory time))
    (hn : '/' ∉ name.toList) (on : ∀ m, d.Way arrival m k [name] location) (ask : Askable (p.join ⟨name⟩)) :
    d.locate (p.join ⟨name⟩) arrival = .ok location := by
  obtain ⟨askable, way⟩ := locate_iff.1 located
  obtain ⟨front, joined, e⟩ := names_join askable.nonempty hn
  have way : d.Way {} 40 (d.origin p) front k := by
    rcases e with e | e
    · exact e ▸ way
    · exact way.trim e
  refine locate_iff.2 ⟨ask, ?_⟩
  rw [joined, origin, Path.isAbsolute_join_of_relative askable.nonempty (Path.isAbsolute_of_not_mem hn), ← origin]
  exact way.prolong directory (List.cons_ne_nil _ _) on

private theorem locate_name (hn : '/' ∉ name.toList) (on : ∀ m, d.Way arrival m d.workingDirectory [name] location)
    (ask : Askable ⟨name⟩) : d.locate ⟨name⟩ arrival = .ok location := by
  refine locate_iff.2 ⟨ask, ?_⟩
  rw [origin, Path.isAbsolute_of_not_mem hn, names_of_not_mem hn]
  exact on 40

/-- The dot leads to the working directory, however it is spelled. -/
private theorem eq_workingDirectory (here : (p == ⟨"."⟩) = true) (located : d.locate p = .ok k) :
    k = d.workingDirectory := by
  have dot : d.locate ⟨"."⟩ = .ok d.workingDirectory :=
    locate_name (by decide) (fun _ => .blank (.inr rfl) .here) ⟨by decide, by decide, by decide⟩
  exact locate_congr here located dot

/-! ### Links that lead to something -/

/-- Names are not too long, and every link leads to something. -/
structure Whole (d : Disk) : Prop extends Regular d where
  short : ∀ entry ∈ d.nodes, ∀ name ∈ entry.1, ¬ name.utf8ByteSize > 255
  leads : ∀ k target, d.node? k = some (.link target) → ∃ n location, d.Way {} n [] k location

namespace Whole

private theorem ordinary (hd : d.Whole) (there : d.node? k ≠ none) : ∀ name ∈ k, Ordinary name := by
  intro name hname
  obtain ⟨node, e⟩ := Option.ne_none_iff_exists'.1 there
  have mem := mem_nodes_of_node? (List.ne_nil_of_mem hname) e
  have named := hd.named _ mem name hname
  exact ⟨not_or.2 ⟨named.1, named.2.1⟩, named.2.2.1, hd.short _ mem name hname⟩

/-- The dots of a directory lead on from it, and so does what it lists, though maybe to a link. -/
private theorem exists_way (hd : d.Whole) (hs : d.Solid k) (held : name = "." ∨ name = ".." ∨ name ∈ d.namesIn k) :
    ∃ location, (∀ m, d.Way ⟨false, false⟩ m k [name] location) ∧ d.node? location ≠ none := by
  rcases held with rfl | rfl | listed
  · have way (m : Nat) : d.Way ⟨false, false⟩ m k ["."] k := .blank (.inr rfl) .here
    exact ⟨k, way, (way 0).there rfl hs⟩
  · have way (m : Nat) : d.Way ⟨false, false⟩ m k [".."] k.dropLast := .up .here
    exact ⟨_, way, (way 0).there rfl hs⟩
  · have there := mem_namesIn.1 listed
    have o := hd.ordinary there name (by simp)
    refine ⟨k ++ [name], fun m => ?_, there⟩
    rcases e : d.node? (k ++ [name]) with _ | ⟨_ | _ | target⟩
    · exact absurd e there
    · exact .file o e
    · exact .through o e .here
    · exact .link o rfl e

/-- If links are followed, a walk that arrives at one goes on to something. -/
private theorem follows (hd : d.Whole) (h : d.Way ⟨false, false⟩ n start names location) (hs : d.Solid start) :
    ∃ m location', d.Way {} m start names location' := by
  induction h with
  | here => exact ⟨0, _, .here⟩
  | blank blank _ ih =>
    obtain ⟨m, location, way⟩ := ih hs
    exact ⟨m, location, .blank blank way⟩
  | up _ ih =>
    obtain ⟨m, location, way⟩ := ih (hs.mono (List.dropLast_prefix _))
    exact ⟨m, location, .up way⟩
  | through o there _ ih =>
    obtain ⟨m, location, way⟩ := ih (hs.concat there)
    exact ⟨m, location, .through o there way⟩
  | file o there => exact ⟨0, _, .file o there⟩
  | new _ fresh => cases fresh
  | @link _ start name target _ _ there =>
    obtain ⟨m, location, way⟩ := hd.leads _ target there
    obtain ⟨time, directory⟩ := hs start List.prefix_rfl
    have o := hd.ordinary (k := start) (by simp [directory])
    exact ⟨m, location, (show d.Solid ([] ++ start) from hs).behind_append o way⟩
  | jump o there absolute _ _ ih =>
    obtain ⟨m, location, way⟩ := ih (solid_nil d)
    exact ⟨m + 1, location, .jump o there absolute (by simp) way⟩
  | turn o there relative _ _ ih =>
    obtain ⟨m, location, way⟩ := ih hs
    exact ⟨m + 1, location, .turn o there relative (by simp) way⟩

end Whole

/-- A walk that may meet fewer links than there are on the way arrives at the same place or gives up. -/
private theorem Way.walk_eq_or {m : Nat} (h : d.Way {} m start names location) (n : Nat) :
    d.walk {} n start names = .ok location ∨ d.walk {} n start names = .error .tooManyLinks := by
  induction h generalizing n with
  | here => exact .inl walk_nil
  | blank blank _ ih =>
    rw [walk_blank blank]
    exact ih n
  | up _ ih =>
    rw [walk_up]
    exact ih n
  | through o there _ ih =>
    rw [walk_through o there]
    exact ih n
  | file o there => exact .inl (walk_file o there)
  | new _ fresh => cases fresh
  | link _ stays => cases stays
  | jump o there absolute goes _ ih =>
    rw [walk_link o there goes, if_pos absolute]
    cases n with
    | zero => exact .inr rfl
    | succ n => exact ih n
  | turn o there relative goes _ ih =>
    rw [walk_link o there goes, if_neg relative]
    cases n with
    | zero => exact .inr rfl
    | succ n => exact ih n

/-- What has a name exists, if its path does not run into too many links. -/
theorem Whole.exists_of_isNamed (hd : d.Whole) (h : d.isNamed p = true) (few : d.locate p ≠ .error .tooManyLinks) :
    d.exists p = true := by
  obtain ⟨node, named⟩ : ∃ node, d.stat p ⟨false, false⟩ = .ok node := by
    unfold isNamed at h
    rcases e : d.stat p ⟨false, false⟩ with _ | node
    · rw [e] at h
      cases h
    · exact ⟨node, rfl⟩
  obtain ⟨location, located, -⟩ := stat_eq_ok.1 named
  obtain ⟨ask, way⟩ := locate_iff.1 located
  have solid := hd.anchored.solid_origin p
  obtain ⟨m, location, way⟩ := hd.follows way solid
  obtain ⟨node, there⟩ := Option.ne_none_iff_exists'.1 (way.there rfl solid)
  have locate_eq : d.locate p = d.walk {} 40 (d.origin p) (Disk.names p.text) := by
    rw [locate, if_neg ask.valid, if_neg ask.nonempty, if_neg ask.short]
    rfl
  have arrives : d.locate p = .ok location := by
    rw [locate_eq] at few ⊢
    exact (way.walk_eq_or 40).resolve_right few
  rw [Disk.exists, stat_eq_ok.2 ⟨location, arrives, there⟩]
  rfl

/-! ### Names in directories -/

/-- A directory has dots, and what it lists. -/
def Held (d : Disk) (p : Path) (name : String) : Prop :=
  name = "." ∨ name = ".." ∨ ∃ names, d.list p = .ok names ∧ name ∈ names

namespace Whole

private theorem exists_held (hd : d.Whole) (directory : d.isDirectory p = true) (held : d.Held p name) :
    ∃ k time location, d.locate p = .ok k ∧ d.node? k = some (.directory time) ∧ '/' ∉ name.toList ∧
      (∀ m, d.Way ⟨false, false⟩ m k [name] location) ∧ d.node? location ≠ none := by
  obtain ⟨k, time, located, there⟩ := exists_of_isDirectory directory
  have solid : d.Solid k := .of_above (hd.anchored.solid_above located) there
  have held : name = "." ∨ name = ".." ∨ name ∈ d.namesIn k := by
    refine held.imp_right (Or.imp_right ?_)
    rintro ⟨names, e, mem⟩
    rw [list_of_locate located there] at e
    exact Except.ok.inj e ▸ mem
  have no_slash : '/' ∉ name.toList := by
    rcases held with rfl | rfl | listed
    · decide
    · decide
    · exact (hd.isName_of_mem_namesIn listed).2.2.2
  obtain ⟨location, on, something⟩ := hd.exists_way solid held
  exact ⟨k, time, location, located, there, no_slash, on, something⟩

theorem isNamed_join (hd : d.Whole) (directory : d.isDirectory p = true) (held : d.Held p name)
    (ask : Askable (p.join ⟨name⟩)) : d.isNamed (p.join ⟨name⟩) = true := by
  obtain ⟨k, time, location, located, there, no_slash, on, something⟩ := hd.exists_held directory held
  exact isNamed_of_locate (locate_join located there no_slash on ask) something

/-- So it is for the name alone, if the directory is the one from which it is read. -/
theorem isNamed_name (hd : d.Whole) (here : (p == ⟨"."⟩) = true) (directory : d.isDirectory p = true) (held : d.Held p name)
    (ask : Askable ⟨name⟩) : d.isNamed ⟨name⟩ = true := by
  obtain ⟨k, time, location, located, there, no_slash, on, something⟩ := hd.exists_held directory held
  rw [eq_workingDirectory here located] at on
  exact isNamed_of_locate (locate_name no_slash on ask) something

end Whole

end ScriptBundler.Disk
