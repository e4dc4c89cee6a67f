import ScriptBundler.Proofs.Disk.Way

/-!
# Disks that grow

While outputs are written, directories and files come to a disk and files change, but nothing goes away and no link is
made (`Grows`). So a path leads where it led before (`Grows.locate`), and a path that led nowhere can lead to one place
only, its `goal?` (`goal?_of_locate`), which is told from the links alone (`Grows.goal?`). Two paths meet if they have
the same goal. What is written to one path changes nothing at the goals of others (`Lands`).

All of this is proved along the ways of a disk.
-/

namespace ScriptBundler.Disk

variable {d d' d'' : Disk} {p q : Path} {arrival : Arrival} {start location k : Location} {names : List String}
  {n : Nat}

/-! ### Growing -/

/-- What may become of a place: a new directory or file, or a file with other content. -/
inductive Grown : Option Node → Option Node → Prop
  | same {node : Option Node} : Grown node node
  | directory {time : Nat} : Grown none (some (.directory time))
  | created {content : ByteArray} {time : Nat} : Grown none (some (.file content time))
  | changed {content content' : ByteArray} {time time' : Nat} :
    Grown (some (.file content time)) (some (.file content' time'))

/-- The other disk has all that this one has, and its links. -/
structure Grows (d d' : Disk) : Prop where
  workingDirectory : d'.workingDirectory = d.workingDirectory
  node? : ∀ k, Grown (d.node? k) (d'.node? k)

private theorem Grown.trans {a b c : Option Node} (h : Grown a b) (k : Grown b c) : Grown a c := by
  cases h with
  | same => exact k
  | directory =>
    cases k
    exact .directory
  | created =>
    cases k with
    | same => exact .created
    | changed => exact .created
  | changed =>
    cases k with
    | same => exact .changed
    | changed => exact .changed

private theorem Grown.link_iff {a b : Option Node} (h : Grown a b) {target : String} :
    b = some (.link target) ↔ a = some (.link target) := by
  cases h <;> simp

private theorem Grown.eq_directory {b : Option Node} {time : Nat} (h : Grown (some (.directory time)) b) :
    b = some (.directory time) := by
  cases h
  rfl

theorem Grows.refl (d : Disk) : d.Grows d := ⟨rfl, fun _ => .same⟩

theorem Grows.trans (h : d.Grows d') (k : d'.Grows d'') : d.Grows d'' :=
  ⟨k.workingDirectory.trans h.workingDirectory, fun l => (h.node? l).trans (k.node? l)⟩

private theorem Grows.origin (h : d.Grows d') (p : Path) : d'.origin p = d.origin p := by
  unfold Disk.origin
  rw [h.workingDirectory]

/-- A walk arrives where it arrived before. -/
private theorem Way.grow (hd : d.Grows d') (h : d.Way arrival n start names location) :
    d'.Way arrival n start names location := by
  induction h with
  | here => exact .here
  | blank h _ ih => exact .blank h ih
  | up _ ih => exact .up ih
  | @through _ start _ name _ _ o h _ ih =>
    have grown := hd.node? (start ++ [name])
    rw [h] at grown
    exact .through o grown.eq_directory ih
  | @file _ start name _ _ o h =>
    have grown := hd.node? (start ++ [name])
    rw [h] at grown
    generalize e : d'.node? (start ++ [name]) = node at grown
    cases grown with
    | same => exact .file o e
    | changed => exact .file o e
  | @new _ start name o fresh h =>
    have grown := hd.node? (start ++ [name])
    rw [h] at grown
    generalize e : d'.node? (start ++ [name]) = node at grown
    -- what was new then may be there by now
    cases grown with
    | same => exact .new o fresh e
    | directory => exact .through o e .here
    | created => exact .file o e
  | link o stays h => exact .link o stays ((hd.node? _).link_iff.2 h)
  | jump o h absolute goes _ ih => exact .jump o ((hd.node? _).link_iff.2 h) absolute goes ih
  | turn o h relative goes _ ih => exact .turn o ((hd.node? _).link_iff.2 h) relative goes ih

theorem Grows.locate (h : d.Grows d') (e : d.locate p arrival = .ok location) : d'.locate p arrival = .ok location := by
  obtain ⟨proper, way⟩ := locate_iff.1 e
  exact locate_iff.2 ⟨proper, h.origin p ▸ way.grow h⟩

/-- A place to which a walk came as to a new one is arrived at when something stands there. -/
private theorem Way.settled {follow : Bool} (h : d.Way ⟨follow, true⟩ n start names location)
    (there : d.node? location ≠ none) : d.Way ⟨follow, false⟩ n start names location := by
  induction h with
  | here => exact .here
  | blank h _ ih => exact .blank h (ih there)
  | up _ ih => exact .up (ih there)
  | through o h _ ih => exact .through o h (ih there)
  | file o h => exact .file o h
  | new o _ h => exact absurd h there
  | link o stays h => exact .link o stays h
  | jump o h absolute goes _ ih => exact .jump o h absolute goes (ih there)
  | turn o h relative goes _ ih => exact .turn o h relative goes (ih there)

private theorem locate_settled {follow : Bool} (e : d.locate p ⟨follow, true⟩ = .ok location)
    (there : d.node? location ≠ none) : d.locate p ⟨follow, false⟩ = .ok location := by
  obtain ⟨proper, way⟩ := locate_iff.1 e
  exact locate_iff.2 ⟨proper, way.settled there⟩

/-! ### Goals -/

/-- Walks from a location along names as if all that is missing were there. The walk goes on by `again` when it meets a
link. -/
def pursue (d : Disk) (again : Location → List String → Option Location) : Location → List String → Option Location
  | here, [] => some here
  | here, name :: rest =>
    if name = "" ∨ name = "." then pursue d again here rest
    else if name = ".." then pursue d again here.dropLast rest
    else match d.node? (here ++ [name]) with
      | some (.link target) =>
        if (⟨target⟩ : Path).isAbsolute then again [] (Disk.names target ++ rest)
        else again here (Disk.names target ++ rest)
      | _ => pursue d again (here ++ [name]) rest

/-- Such a walk that may meet the given number of links. -/
def chase (d : Disk) : Nat → Location → List String → Option Location
  | 0 => d.pursue fun _ _ => none
  | n + 1 => d.pursue (d.chase n)

/-- Where a path leads once all that is missing is there. -/
def goal? (d : Disk) (p : Path) : Option Location := d.chase 40 (d.origin p) (Disk.names p.text)

/-- Two paths lead to the same place, if anywhere. -/
def Meet (d : Disk) (p q : Path) : Prop := d.goal? p = d.goal? q ∧ d.goal? p ≠ none

instance (d : Disk) (p q : Path) : Decidable (d.Meet p q) := inferInstanceAs (Decidable (_ ∧ _))

theorem Meet.symm (h : d.Meet p q) : d.Meet q p := ⟨h.1.symm, fun e => h.2 (h.1.trans e)⟩

/-- Goes on behind a link, if there may be one more. -/
def chaseOn (d : Disk) : Nat → Location → List String → Option Location
  | 0 => fun _ _ => none
  | n + 1 => d.chase n

private theorem chase_eq (d : Disk) (n : Nat) : d.chase n = d.pursue (d.chaseOn n) := by
  cases n <;> rfl

/-- Without a link, the walk goes on whatever stands there. -/
private theorem pursue_ordinary {again : Location → List String → Option Location} {name : String} {rest : List String}
    (o : Ordinary name) (h : ∀ target, d.node? (start ++ [name]) ≠ some (.link target)) :
    d.pursue again start (name :: rest) = d.pursue again (start ++ [name]) rest := by
  rw [pursue, if_neg o.not_blank, if_neg o.not_up]
  split
  · rename_i target e
    exact absurd e (h target)
  · rfl

/-- A walk that arrives, arrives at the goal. -/
private theorem Way.chase (hf : arrival.follow = true) (h : d.Way arrival n start names location) :
    d.chase n start names = some location := by
  induction h with
  | here =>
    rw [chase_eq]
    rfl
  | blank h _ ih =>
    rw [chase_eq] at ih ⊢
    rw [pursue, if_pos h, ih]
  | up _ ih =>
    rw [chase_eq] at ih ⊢
    rw [pursue, if_neg (by simp), if_pos rfl, ih]
  | through o h _ ih =>
    rw [chase_eq] at ih ⊢
    rw [pursue_ordinary o (by simp [h]), ih]
  | file o h =>
    rw [chase_eq, pursue_ordinary o (by simp [h])]
    rfl
  | new o _ h =>
    rw [chase_eq, pursue_ordinary o (by simp [h])]
    rfl
  | link o stays _ =>
    rw [hf] at stays
    cases stays
  | jump o h absolute _ _ ih =>
    rw [chase_eq, pursue, if_neg o.not_blank, if_neg o.not_up, h]
    dsimp only
    rw [if_pos absolute]
    exact ih
  | turn o h relative _ _ ih =>
    rw [chase_eq, pursue, if_neg o.not_blank, if_neg o.not_up, h]
    dsimp only
    rw [if_neg relative]
    exact ih

theorem goal?_of_locate {fresh : Bool} (e : d.locate p ⟨true, fresh⟩ = .ok location) : d.goal? p = some location :=
  (locate_iff.1 e).2.chase rfl

private theorem Grows.pursue (h : d.Grows d') {again again' : Location → List String → Option Location}
    (ha : again' = again) : d'.pursue again' start names = d.pursue again start names := by
  subst ha
  induction names generalizing start with
  | nil => rfl
  | cons name rest ih =>
    rw [Disk.pursue, Disk.pursue]
    by_cases blank : name = "" ∨ name = "."
    · rw [if_pos blank, if_pos blank, ih]
    rw [if_neg blank, if_neg blank]
    by_cases up : name = ".."
    · rw [if_pos up, if_pos up, ih]
    rw [if_neg up, if_neg up]
    -- only a link could lead elsewhere, and both disks have the same links
    have link_iff : ∀ target, d'.node? (start ++ [name]) = some (.link target) ↔
        d.node? (start ++ [name]) = some (.link target) := fun _ => (h.node? _).link_iff
    by_cases link : ∃ target, d.node? (start ++ [name]) = some (.link target)
    · obtain ⟨target, e⟩ := link
      rw [e, (link_iff target).2 e]
    · split
      · rename_i target e
        exact absurd ⟨target, (link_iff target).1 e⟩ link
      · split
        · rename_i target e
          exact absurd ⟨target, e⟩ link
        · exact ih

private theorem Grows.chase (h : d.Grows d') (n : Nat) : d'.chase n = d.chase n := by
  induction n with
  | zero =>
    funext start names
    exact h.pursue rfl
  | succ n ih =>
    funext start names
    exact h.pursue ih

/-- As long as the links stay, the goals stay. -/
theorem Grows.goal? (h : d.Grows d') (p : Path) : d'.goal? p = d.goal? p := by
  unfold Disk.goal?
  rw [h.chase, h.origin]

/-! ### No links at the end -/

/-- The working directory is a directory in directories. -/
def Anchored (d : Disk) : Prop := ∀ k, k <+: d.workingDirectory → k ≠ [] → ∃ time, d.node? k = some (.directory time)

theorem anchored_of_root (h : d.workingDirectory = []) : d.Anchored := by
  intro k hk hne
  rw [h] at hk
  exact absurd (List.prefix_nil.1 hk) hne

theorem Anchored.grow (h : d.Anchored) (hd : d.Grows d') : d'.Anchored := by
  intro k hk hne
  rw [hd.workingDirectory] at hk
  obtain ⟨time, e⟩ := h k hk hne
  have grown := hd.node? k
  rw [e] at grown
  exact ⟨time, grown.eq_directory⟩

/-- No link stands at a place or above it. -/
def Clear (d : Disk) (k : Location) : Prop := ∀ l, l <+: k → ∀ target, d.node? l ≠ some (.link target)

private theorem clear_nil (d : Disk) : d.Clear [] := by
  intro l hl target e
  rw [List.prefix_nil.1 hl] at e
  cases e

private theorem Clear.concat {name : String} (h : d.Clear k)
    (hn : ∀ target, d.node? (k ++ [name]) ≠ some (.link target)) : d.Clear (k ++ [name]) := by
  intro l hl
  rcases List.prefix_concat_iff.1 hl with rfl | hl
  · exact hn
  · exact h l hl

private theorem Way.clear (hf : arrival.follow = true) (h : d.Way arrival n start names location) (hs : d.Clear start) :
    d.Clear location := by
  induction h with
  | here => exact hs
  | blank _ _ ih => exact ih hs
  | up _ ih => exact ih fun l hl => hs l (hl.trans (List.dropLast_prefix _))
  | through _ h _ ih => exact ih (hs.concat (by simp [h]))
  | file _ h => exact hs.concat (by simp [h])
  | new _ _ h => exact hs.concat (by simp [h])
  | link _ stays _ =>
    rw [hf] at stays
    cases stays
  | jump _ _ _ _ _ ih => exact ih (clear_nil d)
  | turn _ _ _ _ _ ih => exact ih hs

/-- A path that is followed leads to a place where there is no link, nor above it. -/
theorem Anchored.clear {fresh : Bool} (h : d.Anchored) (e : d.locate p ⟨true, fresh⟩ = .ok location) : d.Clear location := by
  have origin_clear : d.Clear (d.origin p) := by
    unfold Disk.origin
    split
    · exact clear_nil d
    · intro l hl target e
      by_cases root : l = []
      · rw [root] at e
        cases e
      · obtain ⟨time, directory⟩ := h l hl root
        rw [directory] at e
        cases e
  exact (locate_iff.1 e).2.clear rfl origin_clear

private theorem Anchored.not_link {fresh : Bool} (h : d.Anchored) (e : d.locate p ⟨true, fresh⟩ = .ok location)
    (target : String) : d.node? location ≠ some (.link target) := h.clear e location List.prefix_rfl target

/-- Without links, a way follows its names. -/
theorem Way.eq_append (hf : arrival.follow = true) (h : d.Way arrival n start names location)
    (hn : ∀ name ∈ names, IsName name) (hc : d.Clear (start ++ names)) : location = start ++ names := by
  have not_link {k rest : Location} {name target : String} (hc : d.Clear (k ++ name :: rest)) :
      d.node? (k ++ [name]) ≠ some (.link target) :=
    hc _ ⟨rest, (List.append_cons k name rest).symm⟩ target
  induction h with
  | here => rw [List.append_nil]
  | blank blank =>
    have proper := hn _ List.mem_cons_self
    exact absurd blank (not_or.2 ⟨proper.1, proper.2.1⟩)
  | up =>
    have proper := hn _ List.mem_cons_self
    exact absurd rfl proper.2.2.1
  | through _ _ _ ih =>
    rw [List.append_cons] at hc ⊢
    exact ih (fun name hname => hn name (List.mem_cons_of_mem _ hname)) hc
  | file => rfl
  | new => rfl
  | link _ stays => simp [hf] at stays
  | jump _ link => exact absurd link (not_link hc)
  | turn _ link => exact absurd link (not_link hc)

/-! ### Directories -/

/-- Nothing becomes of a place, but that a directory may come to be where nothing is. -/
inductive Spared : Option Node → Option Node → Prop
  | same {node : Option Node} : Spared node node
  | directory {time : Nat} : Spared none (some (.directory time))

theorem Spared.trans {a b c : Option Node} (h : Spared a b) (k : Spared b c) : Spared a c := by
  cases h with
  | same => exact k
  | directory =>
    cases k
    exact .directory

private theorem Spared.grown {a b : Option Node} (h : Spared a b) : Grown a b := by
  cases h with
  | same => exact .same
  | directory => exact .directory

/-- What is there is there as before. -/
private theorem Spared.eq_of_ne_none {a b : Option Node} (h : Spared a b) (hne : a ≠ none) : b = a := by
  cases h with
  | same => rfl
  | directory => exact absurd rfl hne

/-- A file that is there was there before. -/
theorem Spared.eq_file {a : Option Node} {content : ByteArray} {time : Nat}
    (h : Spared a (some (.file content time))) : a = some (.file content time) := by
  cases h
  rfl

/-- The other disk has some more directories. -/
structure Adds (d d' : Disk) : Prop where
  workingDirectory : d'.workingDirectory = d.workingDirectory
  spared : ∀ k, Spared (d.node? k) (d'.node? k)

theorem Adds.refl (d : Disk) : d.Adds d := ⟨rfl, fun _ => .same⟩

private theorem Adds.trans (h : d.Adds d') (k : d'.Adds d'') : d.Adds d'' :=
  ⟨k.workingDirectory.trans h.workingDirectory, fun l => (h.spared l).trans (k.spared l)⟩

private theorem Adds.grows (h : d.Adds d') : d.Grows d' := ⟨h.workingDirectory, fun k => (h.spared k).grown⟩

private theorem put_workingDirectory (d : Disk) (k : Location) (node : Node) :
    (d.put k node).tick.workingDirectory = d.workingDirectory := by
  show (d.put k node).workingDirectory = _
  rw [put]
  split <;> rfl

private theorem adds_makeDirectory (h : d.makeDirectory p = .ok d') : d.Adds d' := by
  unfold makeDirectory at h
  obtain ⟨location, -, h⟩ := Action.bind_eq_ok.1 h
  split at h
  · cases h
  · rename_i missing
    cases h
    have hne : location ≠ [] := by
      rintro rfl
      cases missing
    refine ⟨put_workingDirectory .., fun k => ?_⟩
    have node_eq : (d.put location (.directory d.clock)).tick.node? k = _ := node?_put hne
    rw [node_eq]
    by_cases same : k = location
    · rw [if_pos same, same, missing]
      exact .directory
    · rw [if_neg same]
      exact .same

private theorem adds_settle (h : makeDirectories.settle d p = .ok d') : d.Adds d' := by
  unfold makeDirectories.settle at h
  split at h
  · rename_i made
    cases h
    exact adds_makeDirectory made
  · split at h
    · cases h
      exact .refl d
    · cases h

private theorem adds_climb {n : Nat} (h : makeDirectories.climb n d p = .ok d') : d.Adds d' := by
  induction n generalizing d d' p with
  | zero =>
    unfold makeDirectories.climb at h
    split at h
    · cases h
      exact .refl d
    · split at h
      · rename_i made
        cases h
        exact adds_makeDirectory made
      · cases h
      · split at h
        · cases h
          exact .refl d
        · cases h
  | succ n ih =>
    unfold makeDirectories.climb at h
    split at h
    · cases h
      exact .refl d
    · split at h
      · rename_i made
        cases h
        exact adds_makeDirectory made
      · split at h
        · rename_i m parent more _
          obtain rfl := Nat.succ.inj more
          obtain ⟨d₁, above, made⟩ := Action.bind_eq_ok.1 h
          exact (ih above).trans (adds_settle made)
        · cases h
      · split at h
        · cases h
          exact .refl d
        · cases h

theorem adds_makeDirectories (h : d.makeDirectories p = .ok d') : d.Adds d' := adds_climb h

/-! ### Writing -/

/-- A file has been given content at a place that was not a directory. -/
structure Writes (d d' : Disk) (location : Location) (content : ByteArray) : Prop where
  workingDirectory : d'.workingDirectory = d.workingDirectory
  there : ∃ time, d'.node? location = some (.file content time)
  elsewhere : ∀ k, k ≠ location → d'.node? k = d.node? k
  before : ∀ time, d.node? location ≠ some (.directory time)

private theorem writes_of_write {content : ByteArray} (h : d.write p content = .ok d') :
    ∃ location, d.locate p ⟨true, true⟩ = .ok location ∧ d.Writes d' location content := by
  unfold write at h
  split at h
  · split at h <;> cases h
  · obtain ⟨location, hl, h⟩ := Action.bind_eq_ok.1 h
    split at h
    · cases h
    · rename_i single
      cases h
      have hne : location ≠ [] := by
        rintro rfl
        exact single 0 rfl
      refine ⟨location, hl, put_workingDirectory .., ⟨d.clock, ?_⟩, fun k hk => ?_, single⟩
      · exact (node?_put hne).trans (if_pos rfl)
      · exact (node?_put hne).trans (if_neg hk)

private theorem Writes.grows {content : ByteArray} (h : d.Writes d' location content)
    (hl : ∀ target, d.node? location ≠ some (.link target)) : d.Grows d' where
  workingDirectory := h.workingDirectory
  node? k := by
    by_cases same : k = location
    · obtain ⟨time, e⟩ := h.there
      rw [same, e]
      rcases old : d.node? location with _ | node
      · exact .created
      · cases node with
        | file => exact .changed
        | directory time => exact absurd old (h.before time)
        | link target => exact absurd old (hl target)
    · rw [h.elsewhere k same]
      exact .same

theorem fromUTF8?_toUTF8 (text : String) : String.fromUTF8? text.toUTF8 = some text := by
  have valid : text.toUTF8.IsValidUTF8 := text.isValidUTF8
  unfold String.fromUTF8?
  rw [dif_pos valid]
  rfl

theorem readText_of_file {content : ByteArray} {time : Nat} {text : String} (hl : d.locate p = .ok location)
    (hn : d.node? location = some (.file content time)) (decoded : String.fromUTF8? content = some text) :
    d.readText p = .ok text := by
  have found : d.stat p = .ok (.file content time) := stat_eq_ok.2 ⟨location, hl, hn⟩
  unfold Disk.readText readBytes
  rw [found]
  simp only [bind, Except.bind, decoded]

/-- A path leads to a file with the given text. -/
def Holds (d : Disk) (p : Path) (text : String) : Prop :=
  ∃ location time, d.locate p = .ok location ∧ d.node? location = some (.file text.toUTF8 time)

theorem Holds.readText {text : String} (h : d.Holds p text) : d.readText p = .ok text := by
  obtain ⟨location, time, hl, hn⟩ := h
  exact readText_of_file hl hn (fromUTF8?_toUTF8 text)

/-- A path has come to hold a text, and nothing has become of what is not its goal. -/
structure Lands (d d' : Disk) (p : Path) (text : String) : Prop where
  grows : d.Grows d'
  holds : d'.Holds p text
  spared : ∀ k, d.goal? p ≠ some k → Spared (d.node? k) (d'.node? k)

/-- The text is written when directories have been added. -/
theorem Anchored.lands {d₁ : Disk} {text : String} (h : d.Anchored) (added : d.Adds d₁)
    (written : d₁.write p text.toUTF8 = .ok d') : d.Lands d' p text := by
  obtain ⟨location, located, writes⟩ := writes_of_write written
  have grows₁ := added.grows
  have grows₂ := writes.grows ((h.grow grows₁).not_link located)
  obtain ⟨time, there⟩ := writes.there
  refine ⟨grows₁.trans grows₂, ⟨location, time, ?_, there⟩, fun k hk => ?_⟩
  · exact locate_settled (grows₂.locate located) (by simp [there])
  · have goal_eq : d.goal? p = some location := by
      rw [← grows₁.goal? p]
      exact goal?_of_locate located
    have elsewhere : k ≠ location := fun e => hk (e ▸ goal_eq)
    rw [writes.elsewhere k elsewhere]
    exact added.spared k

/-- What other paths hold is kept. -/
theorem Lands.keeps {text text' : String} (h : d.Lands d' p text) (apart : ¬ d.Meet q p) (k : d.Holds q text') :
    d'.Holds q text' := by
  obtain ⟨location, time, located, there⟩ := k
  have goal_eq := goal?_of_locate located
  have other : d.goal? p ≠ some location := fun e => apart ⟨goal_eq.trans e.symm, by simp [goal_eq]⟩
  refine ⟨location, time, h.grows.locate located, ?_⟩
  rw [(h.spared location other).eq_of_ne_none (by simp [there]), there]

end ScriptBundler.Disk
