import ScriptBundler.Proofs.Disk.Place

/-!
# Changes of single files

On a disk without links the path of a place leads there through directories only, or nowhere (`locate_pathOf`,
`Leads.above`). So a change of what stands at a place where there is no directory (`Changes`) is not noticed by who reads
another file (`Changes.readText`). A file that is written or removed is such a change (`changes_write`,
`changes_remove`).
-/

namespace ScriptBundler.Disk

variable {d d' : Disk} {arrival : Arrival} {start location place k : Location} {names front : List String} {node : Node}

/-- There are no links. -/
def Unlinked (d : Disk) : Prop := ∀ location target, d.node? location ≠ some (.link target)

/-! ### Ways through directories -/

/-- Names lead to a place through directories: to one of them, to a file, or to a place that may be new. -/
inductive Leads (d : Disk) (arrival : Arrival) : Location → List String → Location → Prop
  | here {start : Location} : Leads d arrival start [] start
  | through {start location : Location} {name : String} {rest : List String} {time : Nat}
    (short : ¬ name.utf8ByteSize > 255) (h : d.node? (start ++ [name]) = some (.directory time))
    (k : Leads d arrival (start ++ [name]) rest location) : Leads d arrival start (name :: rest) location
  | file {start : Location} {name : String} {content : ByteArray} {time : Nat} (short : ¬ name.utf8ByteSize > 255)
    (h : d.node? (start ++ [name]) = some (.file content time)) : Leads d arrival start [name] (start ++ [name])
  | new {start : Location} {name : String} (short : ¬ name.utf8ByteSize > 255) (fresh : arrival.fresh = true)
    (h : d.node? (start ++ [name]) = none) : Leads d arrival start [name] (start ++ [name])

/-- A walk that arrives has been led through directories. -/
private theorem leads_of_descend {again : Location → List String → Except DiskError Location} (hd : d.Unlinked)
    (hn : ∀ name ∈ names, IsName name) (h : d.descend arrival again start names = .ok location) :
    d.Leads arrival start names location := by
  induction names generalizing start with
  | nil =>
    cases h
    exact .here
  | cons name rest ih =>
    rw [List.forall_mem_cons] at hn
    obtain ⟨hne, hdot, hup, -⟩ := hn.1
    rw [descend, if_neg (not_or.2 ⟨hne, hdot⟩), if_neg hup] at h
    split at h
    · cases h
    · rename_i short
      -- the walk may end at nothing or at a file, and goes on in a directory
      split at h
      · rename_i e
        split at h
        · rename_i last
          obtain ⟨fresh, rfl⟩ := last
          cases h
          exact .new short fresh e
        · cases h
      · rename_i e
        split at h
        · rename_i last
          obtain rfl := last
          cases h
          exact .file short e
        · cases h
      · rename_i e
        exact .through short e (ih hn.2 h)
      · rename_i e
        exact absurd e (hd _ _)

namespace Leads

private theorem descend {again : Location → List String → Except DiskError Location}
    (h : d.Leads arrival start names location)
    (hn : ∀ name ∈ names, IsName name) : d.descend arrival again start names = .ok location := by
  induction h with
  | here => rfl
  | through short h _ ih =>
    rw [List.forall_mem_cons] at hn
    obtain ⟨hne, hdot, hup, -⟩ := hn.1
    rw [Disk.descend, if_neg (not_or.2 ⟨hne, hdot⟩), if_neg hup, if_neg short, h]
    exact ih hn.2
  | file short h =>
    obtain ⟨hne, hdot, hup, -⟩ := hn _ List.mem_cons_self
    rw [Disk.descend, if_neg (not_or.2 ⟨hne, hdot⟩), if_neg hup, if_neg short, h]
    exact if_pos rfl
  | new short fresh h =>
    obtain ⟨hne, hdot, hup, -⟩ := hn _ List.mem_cons_self
    rw [Disk.descend, if_neg (not_or.2 ⟨hne, hdot⟩), if_neg hup, if_neg short, h]
    exact if_pos ⟨fresh, rfl⟩

theorem eq_append (h : d.Leads arrival start names location) : location = start ++ names := by
  induction h with
  | here => simp
  | through _ _ _ ih => simp [ih]
  | file => rfl
  | new => rfl

/-- Above the place there are directories. -/
theorem above (h : d.Leads arrival start names location) (hf : front <+: names) (hne : front ≠ []) (hl : front ≠ names) :
    ∃ time, d.node? (start ++ front) = some (.directory time) := by
  induction h generalizing front with
  | here => exact absurd (List.prefix_nil.1 hf) hne
  | through _ h _ ih =>
    obtain rfl | ⟨front, rfl, hf'⟩ := List.prefix_cons_iff.1 hf
    · exact absurd rfl hne
    · by_cases last : front = []
      · rw [last]
        exact ⟨_, h⟩
      · obtain ⟨time, e⟩ := ih hf' last fun e => hl (by rw [e])
        exact ⟨time, by rwa [List.append_assoc] at e⟩
  | file | new =>
    obtain rfl | ⟨front, rfl, hf'⟩ := List.prefix_cons_iff.1 hf
    · exact absurd rfl hne
    · exact absurd (by rw [List.prefix_nil.1 hf']) hl

/-- Only what stands on the way matters. -/
private theorem congr (h : d.Leads arrival start names location)
    (hd : ∀ front, front <+: names → d'.node? (start ++ front) = d.node? (start ++ front)) :
    d'.Leads arrival start names location := by
  induction h with
  | here => exact .here
  | through short h _ ih =>
    rename_i name rest _ _
    refine .through short ((hd [name] (List.prefix_cons_iff.2 (.inr ⟨[], rfl, List.nil_prefix⟩))).trans h) (ih ?_)
    intro front hf
    rw [List.append_assoc]
    exact hd (name :: front) (List.cons_prefix_cons.2 ⟨rfl, hf⟩)
  | file short h => exact .file short ((hd _ List.prefix_rfl).trans h)
  | new short fresh h => exact .new short fresh ((hd _ List.prefix_rfl).trans h)

end Leads

/-! ### Paths of places -/

theorem names_pathOf (h : ∀ name ∈ location, IsName name) :
    Disk.names (pathOf location).text = "" :: if location = [] then [""] else location := by
  rw [Disk.names, toList_pathOf, Path.pieces, if_pos rfl, List.map_cons]
  congr 1
  split
  · rename_i e
    rw [e]
    rfl
  · rename_i hne
    rw [Path.pieces_joinPieces (by simpa using hne), List.map_map]
    · simp
    · intro piece hpiece
      obtain ⟨name, hname, rfl⟩ := List.mem_map.1 hpiece
      exact (h name hname).2.2.2

private theorem descend_names_pathOf {again : Location → List String → Except DiskError Location}
    (h : ∀ name ∈ location, IsName name) :
    d.descend arrival again start (Disk.names (pathOf location).text) = d.descend arrival again start location := by
  rw [names_pathOf h, descend, if_pos (.inl rfl)]
  split
  · rename_i e
    rw [e]
    rfl
  · rfl

/-- Without links, the path of a place leads there or nowhere. -/
theorem locate_pathOf (hd : d.Unlinked) (h : ∀ name ∈ location, IsName name) :
    d.locate (pathOf location) arrival = .ok k ↔
      (¬ (pathOf location).text.toList.contains '\x00' = true ∧ ¬ (pathOf location).text.utf8ByteSize > 4095) ∧
        d.Leads arrival [] location k := by
  have absolute := (direct_pathOf h).absolute
  have nonempty : (pathOf location).text ≠ "" := by
    intro e
    rw [Path.isAbsolute, e] at absolute
    cases absolute
  unfold locate
  rw [if_neg nonempty, if_pos absolute, walk, descend_names_pathOf h]
  split
  · rename_i zero
    exact iff_of_false (by simp) fun k => k.1.1 zero
  · rename_i zero
    split
    · rename_i long
      exact iff_of_false (by simp) fun k => k.1.2 long
    · rename_i long
      exact ⟨fun e => ⟨⟨zero, long⟩, leads_of_descend hd h e⟩, fun k => k.2.descend h⟩

/-! ### Changes -/

/-- What stands at a place or below it may be another on the other disk. There has been no directory. -/
structure Changes (place : Location) (d d' : Disk) : Prop where
  workingDirectory : d'.workingDirectory = d.workingDirectory
  unlinked : d'.Unlinked
  apart : ∀ k, ¬ place <+: k → d'.node? k = d.node? k
  single : ∀ time, d.node? place ≠ some (.directory time)

theorem Changes.grounded (h : Changes place d d') (hd : d.Grounded) : d'.Grounded := by
  unfold Grounded
  rw [h.workingDirectory]
  exact hd

private theorem Changes.not_prefix (h : Changes place d d') (hl : d.Leads arrival [] k location) (hne : k ≠ place)
    (hf : front <+: k) : ¬ place <+: front := by
  intro hp
  -- the root is a directory, and so is all that stands above the other place
  by_cases root : place = []
  · exact h.single 0 (by rw [root]; rfl)
  · obtain ⟨time, e⟩ := hl.above (hp.trans hf) root hne.symm
    exact h.single time e

/-- Another place is found as before, and with it what stands there. -/
private theorem Changes.stat (h : Changes place d d') (hd : d.Unlinked) (hk : ∀ name ∈ k, IsName name) (hne : k ≠ place)
    (e : d.stat (pathOf k) arrival = .ok node) : d'.stat (pathOf k) arrival = .ok node := by
  obtain ⟨location, hl, hn⟩ := stat_eq_ok.1 e
  obtain ⟨spelled, leads⟩ := (locate_pathOf hd hk).1 hl
  obtain rfl : location = k := leads.eq_append
  have same : ∀ front, front <+: location → d'.node? front = d.node? front :=
    fun front hf => h.apart front (h.not_prefix leads hne hf)
  refine stat_eq_ok.2 ⟨location, (locate_pathOf h.unlinked hk).2 ⟨spelled, leads.congr same⟩, ?_⟩
  rw [same location List.prefix_rfl, hn]

theorem Changes.readText (h : Changes place d d') (hd : d.Unlinked) (hk : ∀ name ∈ k, IsName name) (hne : k ≠ place)
    {text : String} (e : d.readText (pathOf k) = .ok text) : d'.readText (pathOf k) = .ok text := by
  rcases he : d.stat (pathOf k) with f | node
  · rw [Disk.readText, readBytes, he] at e
    cases e
  · rw [Disk.readText, readBytes, h.stat hd hk hne he]
    rwa [Disk.readText, readBytes, he] at e

/-! ### Writing -/

theorem node?_of_ne_nil (h : k ≠ []) : d.node? k = d.nodes.lookup k := by
  cases k with
  | nil => exact absurd rfl h
  | cons => rfl

private theorem lookup_replace (nodes : List (Location × Node)) :
    (nodes.map fun (l, n) => if l = place then (l, node) else (l, n)).lookup k =
      if k = place then (nodes.lookup k).map fun _ => node else nodes.lookup k := by
  induction nodes with
  | nil => simp
  | cons row nodes ih =>
    obtain ⟨l, n⟩ := row
    have row_eq : (if l = place then (l, node) else (l, n)) = (l, if l = place then node else n) := by split <;> rfl
    simp only [List.map_cons, row_eq, List.lookup_cons]
    by_cases hl : k = l
    · rw [hl, BEq.rfl]
      show some (if l = place then node else n) = if l = place then some node else some n
      split <;> rfl
    · rw [beq_eq_false_iff_ne.2 hl]
      exact ih

theorem node?_put (h : place ≠ []) : (d.put place node).node? k = if k = place then some node else d.node? k := by
  by_cases root : k = []
  · rw [root, if_neg h.symm]
    rfl
  · rw [node?_of_ne_nil root, node?_of_ne_nil root, put]
    split
    · rename_i there
      obtain ⟨row, hrow, e⟩ := List.any_eq_true.1 there
      rw [lookup_replace]
      split
      · rename_i same
        have found : (d.nodes.lookup k).isSome = true :=
          List.lookup_isSome_iff.2 ⟨row, hrow, by rw [same, of_decide_eq_true e, BEq.rfl]⟩
        rw [← Option.some_get found]
        rfl
      · rfl
    · rename_i new
      rw [List.lookup_append]
      split
      · rename_i same
        have missing : d.nodes.lookup k = none := by
          refine List.lookup_eq_none_iff.2 fun row hrow => bne_iff_ne.2 fun e => new ?_
          exact List.any_eq_true.2 ⟨row, hrow, decide_eq_true (e.symm.trans same)⟩
        rw [missing, same]
        simp
      · rename_i apart
        have apart : (k == place) = false := beq_eq_false_iff_ne.2 apart
        rw [List.lookup_cons, apart]
        simp

private theorem changes_put (hd : d.Unlinked) (hne : place ≠ []) (hn : ∀ target, node ≠ .link target)
    (single : ∀ time, d.node? place ≠ some (.directory time)) : Changes place d (d.put place node).tick where
  workingDirectory := by
    show (d.put place node).workingDirectory = _
    rw [put]
    split <;> rfl
  unlinked l target e := by
    have e : (d.put place node).node? l = some (.link target) := e
    rw [node?_put hne] at e
    split at e
    · exact hn target (Option.some_inj.1 e)
    · exact hd l target e
  apart l hl := by
    show (d.put place node).node? l = _
    rw [node?_put hne, if_neg]
    rintro rfl
    exact hl List.prefix_rfl
  single := single

theorem changes_write (hd : d.Unlinked) (hp : ∀ name ∈ place, IsName name) {content : ByteArray}
    (h : d.write (pathOf place) content = .ok d') : Changes place d d' := by
  unfold write at h
  split at h
  · split at h <;> cases h
  · rcases hl : d.locate (pathOf place) ⟨true, true⟩ with e | location
    · rw [hl] at h
      cases h
    · rw [hl] at h
      simp only [bind, Except.bind] at h
      obtain rfl : location = place := ((locate_pathOf hd hp).1 hl).2.eq_append
      split at h
      · cases h
      · rename_i single
        cases h
        refine changes_put hd ?_ nofun single
        rintro rfl
        exact single 0 rfl

/-! ### Removing -/

private theorem exists_joinPieces_concat (ps : List (List Char)) (piece : List Char) :
    ∃ front, Path.joinPieces (ps ++ [piece]) = front ++ piece := by
  induction ps with
  | nil => exact ⟨[], rfl⟩
  | cons first ps ih =>
    obtain ⟨front, e⟩ := ih
    refine ⟨first ++ ['/'] ++ front, ?_⟩
    rw [List.cons_append, Path.joinPieces_eq_intercalate, List.intercalate_cons_of_ne_nil (by simp),
      ← Path.joinPieces_eq_intercalate, e, List.append_assoc (first ++ ['/'])]

theorem getLast?_pathOf (h : ∀ name ∈ location, IsName name) (hne : location ≠ []) :
    (pathOf location).text.toList.getLast? ≠ some '/' := by
  obtain ⟨front, name, rfl⟩ := (List.eq_nil_or_concat location).resolve_left hne
  obtain ⟨empty, -, -, no_slash⟩ := h name (by simp)
  have empty : name.toList ≠ [] := fun e => empty (String.toList_inj.1 e)
  rw [toList_pathOf, List.concat_eq_append, List.map_append, List.map_singleton]
  obtain ⟨cs, e⟩ := exists_joinPieces_concat (front.map String.toList) name.toList
  rw [e, ← List.cons_append, List.getLast?_append_of_ne_nil _ empty]
  exact fun last => no_slash (List.mem_of_getLast? last)

private theorem withoutFinalSlashes_pathOf (h : ∀ name ∈ location, IsName name) :
    withoutFinalSlashes (pathOf location) = pathOf location := by
  unfold withoutFinalSlashes
  by_cases root : location = []
  · rw [root]
    rfl
  · have last := getLast?_pathOf h root
    rw [← List.head?_reverse] at last
    have kept : (pathOf location).text.toList.reverse.dropWhile (· = '/') = (pathOf location).text.toList.reverse := by
      rcases e : (pathOf location).text.toList.reverse with _ | ⟨c, cs⟩
      · rfl
      · rw [e, List.head?_cons] at last
        exact List.dropWhile_cons_of_neg (by simpa using last)
    rw [kept, List.reverse_reverse]
    split
    · rfl
    · rw [String.ofList_toList]

private theorem lookup_filter (P : Location → Bool) (nodes : List (Location × Node)) :
    (nodes.filter fun (l, _) => P l).lookup k = if P k then nodes.lookup k else none := by
  induction nodes with
  | nil => simp
  | cons row nodes ih =>
    obtain ⟨l, n⟩ := row
    simp only [List.filter_cons, List.lookup_cons]
    by_cases hl : k = l
    · rw [hl] at ih ⊢
      split
      · rw [List.lookup_cons, BEq.rfl]
      · rename_i hP
        rw [ih, if_neg hP]
    · rw [beq_eq_false_iff_ne.2 hl]
      split
      · rw [List.lookup_cons, beq_eq_false_iff_ne.2 hl]
        exact ih
      · exact ih

/-- What stands at a place or below it is gone when it is left out. -/
private theorem node?_leaveOut (h : place ≠ []) :
    node? { d with nodes := d.nodes.filter fun (l, _) => ¬ place.isPrefixOf l } k =
      if place <+: k then none else d.node? k := by
  by_cases root : k = []
  · rw [root, if_neg fun hp => h (List.prefix_nil.1 hp)]
    rfl
  · rw [node?_of_ne_nil root, node?_of_ne_nil root]
    refine (lookup_filter (fun l => decide (¬ place.isPrefixOf l = true)) d.nodes).trans ?_
    by_cases below : place <+: k
    · rw [if_pos below, if_neg]
      simpa using below
    · rw [if_neg below, if_pos]
      simpa using below

theorem changes_remove (hd : d.Unlinked) (hp : ∀ name ∈ place, IsName name) (h : d.isFile (pathOf place) = true) :
    Changes place d (d.remove (pathOf place)) := by
  have single : ∀ time, d.node? place ≠ some (.directory time) := by
    intro time directory
    unfold isFile at h
    split at h
    · rename_i file
      obtain ⟨location, hl, hn⟩ := stat_eq_ok.1 file
      obtain rfl : location = place := ((locate_pathOf hd hp).1 hl).2.eq_append
      rw [directory] at hn
      cases hn
    · cases h
  have unchanged : Changes place d d := ⟨rfl, hd, fun _ _ => rfl, single⟩
  unfold remove
  rw [withoutFinalSlashes_pathOf hp]
  split
  · rename_i location hl
    obtain rfl : location = place := ((locate_pathOf hd hp).1 hl).2.eq_append
    split
    · exact unchanged
    · rename_i hne
      refine ⟨rfl, fun l target e => ?_, fun l hl => ?_, single⟩
      · rw [node?_leaveOut hne] at e
        split at e
        · cases e
        · exact hd l target e
      · rw [node?_leaveOut hne, if_neg hl]
  · exact unchanged

end ScriptBundler.Disk
