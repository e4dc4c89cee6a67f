import ScriptBundler.Proofs.Action
import ScriptBundler.Proofs.Disk.Change

/-!
# Walks that arrive

A `Way` is a walk that arrives, with each of its steps. A path leads to a place if and only if there is a way from where
it starts (`locate_iff`).
-/

namespace ScriptBundler.Disk

variable {d : Disk} {p : Path} {arrival : Arrival} {start location : Location} {names : List String} {n : Nat}

/-- A name of what may stand in a directory. -/
structure Ordinary (name : String) : Prop where
  not_blank : ¬ (name = "" ∨ name = ".")
  not_up : name ≠ ".."
  short : ¬ name.utf8ByteSize > 255

/-- Names lead to a place, by not more links than there may be. -/
inductive Way (d : Disk) (arrival : Arrival) : Nat → Location → List String → Location → Prop
  | here {n : Nat} {start : Location} : Way d arrival n start [] start
  | blank {n : Nat} {start location : Location} {name : String} {rest : List String} (h : name = "" ∨ name = ".")
    (k : Way d arrival n start rest location) : Way d arrival n start (name :: rest) location
  | up {n : Nat} {start location : Location} {rest : List String}
    (k : Way d arrival n start.dropLast rest location) : Way d arrival n start (".." :: rest) location
  | through {n : Nat} {start location : Location} {name : String} {rest : List String} {time : Nat} (o : Ordinary name)
    (h : d.node? (start ++ [name]) = some (.directory time)) (k : Way d arrival n (start ++ [name]) rest location) :
    Way d arrival n start (name :: rest) location
  | file {n : Nat} {start : Location} {name : String} {content : ByteArray} {time : Nat} (o : Ordinary name)
    (h : d.node? (start ++ [name]) = some (.file content time)) : Way d arrival n start [name] (start ++ [name])
  | new {n : Nat} {start : Location} {name : String} (o : Ordinary name) (fresh : arrival.fresh = true)
    (h : d.node? (start ++ [name]) = none) : Way d arrival n start [name] (start ++ [name])
  | link {n : Nat} {start : Location} {name target : String} (o : Ordinary name) (stays : arrival.follow = false)
    (h : d.node? (start ++ [name]) = some (.link target)) : Way d arrival n start [name] (start ++ [name])
  | jump {n : Nat} {start location : Location} {name target : String} {rest : List String} (o : Ordinary name)
    (h : d.node? (start ++ [name]) = some (.link target)) (absolute : (⟨target⟩ : Path).isAbsolute = true)
    (goes : ¬ (rest = [] ∧ ¬ arrival.follow = true)) (k : Way d arrival n [] (Disk.names target ++ rest) location) :
    Way d arrival (n + 1) start (name :: rest) location
  | turn {n : Nat} {start location : Location} {name target : String} {rest : List String} (o : Ordinary name)
    (h : d.node? (start ++ [name]) = some (.link target)) (relative : ¬ (⟨target⟩ : Path).isAbsolute = true)
    (goes : ¬ (rest = [] ∧ ¬ arrival.follow = true)) (k : Way d arrival n start (Disk.names target ++ rest) location) :
    Way d arrival (n + 1) start (name :: rest) location

/-- Goes on behind a link, if there may be one more. -/
def onward (d : Disk) (arrival : Arrival) : Nat → Location → List String → Except DiskError Location
  | 0 => fun _ _ => .error .tooManyLinks
  | n + 1 => d.walk arrival n

private theorem walk_eq (d : Disk) (arrival : Arrival) (n : Nat) :
    d.walk arrival n = d.descend arrival (d.onward arrival n) := by
  cases n <;> rfl

private theorem way_of_descend (ha : ∀ start names, d.onward arrival n start names = .ok location →
      ∃ m, n = m + 1 ∧ d.Way arrival m start names location)
    (e : d.descend arrival (d.onward arrival n) start names = .ok location) : d.Way arrival n start names location := by
  induction names generalizing start with
  | nil =>
    cases e
    exact .here
  | cons name rest ih =>
    rw [descend] at e
    split at e
    · rename_i blank
      exact .blank blank (ih e)
    · rename_i blank
      split at e
      · rename_i up
        rw [up]
        exact .up (ih e)
      · rename_i up
        split at e
        · cases e
        · rename_i short
          have o : Ordinary name := ⟨blank, up, short⟩
          -- nothing, a file, a directory or a link may stand there, and only the last two lead on
          split at e
          · rename_i h
            split at e
            · rename_i last
              obtain ⟨fresh, rfl⟩ := last
              cases e
              exact .new o fresh h
            · cases e
          · rename_i h
            split at e
            · rename_i last
              obtain rfl := last
              cases e
              exact .file o h
            · cases e
          · rename_i h
            exact .through o h (ih e)
          · rename_i h
            split at e
            · rename_i last
              obtain ⟨rfl, stays⟩ := last
              cases e
              exact .link o (by simpa using stays) h
            · rename_i goes
              split at e
              · rename_i absolute
                obtain ⟨m, rfl, k⟩ := ha _ _ e
                exact .jump o h absolute goes k
              · rename_i relative
                obtain ⟨m, rfl, k⟩ := ha _ _ e
                exact .turn o h relative goes k

private theorem way_of_walk (e : d.walk arrival n start names = .ok location) :
    d.Way arrival n start names location := by
  induction n generalizing start names with
  | zero =>
    rw [walk_eq] at e
    exact way_of_descend (fun _ _ h => nomatch h) e
  | succ n ih =>
    rw [walk_eq] at e
    exact way_of_descend (fun _ _ h => ⟨n, rfl, ih h⟩) e

section

variable {name : String} {rest : List String}

theorem walk_nil : d.walk arrival n start [] = .ok start := by
  rw [walk_eq, descend]

theorem walk_blank (h : name = "" ∨ name = ".") : d.walk arrival n start (name :: rest) = d.walk arrival n start rest := by
  rw [walk_eq, descend, if_pos h]

theorem walk_up : d.walk arrival n start (".." :: rest) = d.walk arrival n start.dropLast rest := by
  rw [walk_eq, descend, if_neg (by simp), if_pos rfl]

theorem walk_through {time : Nat} (o : Ordinary name) (h : d.node? (start ++ [name]) = some (.directory time)) :
    d.walk arrival n start (name :: rest) = d.walk arrival n (start ++ [name]) rest := by
  rw [walk_eq, descend, if_neg o.not_blank, if_neg o.not_up, if_neg o.short, h]

theorem walk_file {content : ByteArray} {time : Nat} (o : Ordinary name)
    (h : d.node? (start ++ [name]) = some (.file content time)) : d.walk arrival n start [name] = .ok (start ++ [name]) := by
  rw [walk_eq, descend, if_neg o.not_blank, if_neg o.not_up, if_neg o.short, h]
  exact if_pos rfl

/-- Behind a link that is followed a walk goes on from the root, or from where the link is. -/
theorem walk_link {target : String} (o : Ordinary name) (h : d.node? (start ++ [name]) = some (.link target))
    (goes : ¬ (rest = [] ∧ ¬ arrival.follow = true)) : d.walk arrival n start (name :: rest) =
      d.onward arrival n (if (⟨target⟩ : Path).isAbsolute then [] else start) (Disk.names target ++ rest) := by
  rw [walk_eq, descend, if_neg o.not_blank, if_neg o.not_up, if_neg o.short, h]
  dsimp only
  rw [if_neg goes]
  split <;> rfl

end

private theorem Way.walk (h : d.Way arrival n start names location) : d.walk arrival n start names = .ok location := by
  induction h with
  | here => exact walk_nil
  | blank h _ ih => rw [walk_blank h, ih]
  | up _ ih => rw [walk_up, ih]
  | through o h _ ih => rw [walk_through o h, ih]
  | file o h => exact walk_file o h
  | new o fresh h =>
    rw [walk_eq, descend, if_neg o.not_blank, if_neg o.not_up, if_neg o.short, h]
    exact if_pos ⟨fresh, rfl⟩
  | link o stays h =>
    rw [walk_eq, descend, if_neg o.not_blank, if_neg o.not_up, if_neg o.short, h]
    exact if_pos ⟨rfl, by simp [stays]⟩
  | jump o h absolute goes _ ih =>
    rw [walk_link o h goes, if_pos absolute]
    exact ih
  | turn o h relative goes _ ih =>
    rw [walk_link o h goes, if_neg relative]
    exact ih

/-- Where a path starts from. -/
def origin (d : Disk) (p : Path) : Location := if p.isAbsolute then [] else d.workingDirectory

/-- A path that may be asked for. -/
structure Askable (p : Path) : Prop where
  valid : ¬ p.text.toList.contains '\x00' = true
  nonempty : p.text ≠ ""
  short : ¬ p.text.utf8ByteSize > 4095

theorem locate_iff : d.locate p arrival = .ok location ↔
    Askable p ∧ d.Way arrival 40 (d.origin p) (Disk.names p.text) location := by
  unfold locate
  split
  · rename_i invalid
    exact iff_of_false nofun fun h => h.1.valid invalid
  · rename_i valid
    split
    · rename_i empty
      exact iff_of_false nofun fun h => h.1.nonempty empty
    · rename_i nonempty
      split
      · rename_i long
        exact iff_of_false nofun fun h => h.1.short long
      · rename_i short
        exact ⟨fun e => ⟨⟨valid, nonempty, short⟩, way_of_walk e⟩, fun h => h.2.walk⟩

end ScriptBundler.Disk
