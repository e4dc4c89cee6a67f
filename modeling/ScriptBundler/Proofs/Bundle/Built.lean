import Mathlib.Data.List.Pairwise
import ScriptBundler.Bundle.Basic
import ScriptBundler.Proofs.Graph.Sharing

/-!
# The bundles there are

`Built` lists the ways to a bundle: patterns are expanded in some world, and the partition is found anew in some world
any number of times. All of them are sound (`Built.sound`): the entries are distinct, and the partition and the
destination belong to them.
-/

namespace ScriptBundler

namespace Bundle

variable {σ : Type} {c : Collaborators σ}

/-- A bundle comes from patterns, and stays one when its partition is found anew. The world may change in between. -/
inductive Built (c : Collaborators σ) : Bundle → Prop where
  | of {patterns : List String} {options : Options} {w w' : σ} {b : Bundle}
    (h : (Bundle.of c patterns options).Gives w b w') : Built c b
  | refresh {b b' : Bundle} {w w' : σ} (h : Built c b) (k : (b.refresh c).Gives w b' w') : Built c b'

/-- The parts of a bundle belong together. The partition and the destination may come from a world of the past. -/
structure Sound (c : Collaborators σ) (b : Bundle) : Prop where
  distinct : b.files.Pairwise fun p q => ¬ (p == q) = true
  partition : ∃ w w', (Partition.of c.trace b.files b.options.common).Gives w b.partition w'
  traced : b.traced = .ofList b.partition.all
  destination : ∃ w, b.destination = commonDestination? b.files b.options.common (c.isThere w)

/-- The bundle with a partition, where the paths exist that are told to. -/
def settle (b : Bundle) (P : Partition) (isThere : Path → Bool) : Bundle :=
  { b with
    partition := P
    traced := .ofList P.all
    destination := commonDestination? b.files b.options.common isThere }

theorem gives_refresh_iff {b b' : Bundle} {w w' : σ} : (b.refresh c).Gives w b' w' ↔
    ∃ P, (Partition.of c.trace b.files b.options.common).Gives w P w' ∧ b' = b.settle P (c.isThere w') := by
  constructor
  · intro h
    obtain ⟨P, w₁, hP, h⟩ := Action.gives_bind.1 h
    obtain ⟨world, w₂, hw, h⟩ := Action.gives_bind.1 h
    obtain ⟨rfl, rfl⟩ := Action.gives_get.1 hw
    obtain ⟨rfl, rfl⟩ := Action.gives_pure.1 h
    exact ⟨P, hP, rfl⟩
  · rintro ⟨P, hP, rfl⟩
    refine Action.gives_bind.2 ⟨P, w', hP, Action.gives_bind.2 ⟨w', w', Action.gives_get.2 ⟨rfl, rfl⟩, ?_⟩⟩
    exact Action.gives_pure.2 ⟨rfl, rfl⟩

/-- What a new look at the world leaves alone, and where the rest comes from. -/
theorem gives_refresh {b b' : Bundle} {w w' : σ} (h : (b.refresh c).Gives w b' w') :
    b'.options = b.options ∧ b'.files = b.files ∧
      (Partition.of c.trace b.files b.options.common).Gives w b'.partition w' ∧
      b'.traced = .ofList b'.partition.all ∧
      b'.destination = commonDestination? b.files b.options.common (c.isThere w') := by
  obtain ⟨P, hP, rfl⟩ := gives_refresh_iff.1 h
  exact ⟨rfl, rfl, hP, rfl, rfl⟩

private theorem gives_expand {patterns : List String} {w w' : σ} {ps : List Path}
    (h : (expand c patterns).Gives w ps w') :
    ∃ found, Glob.expand (c.disk w) patterns = .ok found ∧ ps = found.toList ∧ w' = w := by
  obtain ⟨world, w₁, hw, k⟩ := Action.gives_bind.1 h
  obtain ⟨rfl, rfl⟩ := Action.gives_get.1 hw
  split at k
  · rename_i found e
    obtain ⟨rfl, rfl⟩ := Action.gives_pure.1 k
    exact ⟨found, e, rfl, rfl⟩
  · exact absurd (Action.gives_during.1 k) Action.not_gives_fail

private theorem refresh_sound {b b' : Bundle} {w w' : σ} (hd : b.files.Pairwise fun p q => ¬ (p == q) = true)
    (h : (b.refresh c).Gives w b' w') : b'.Sound c := by
  obtain ⟨options_eq, files_eq, hP, traced_eq, destination_eq⟩ := gives_refresh h
  rw [← options_eq, ← files_eq] at hP destination_eq
  exact ⟨files_eq ▸ hd, ⟨w, w', hP⟩, traced_eq, ⟨w', destination_eq⟩⟩

theorem Built.sound {b : Bundle} (h : Built c b) : b.Sound c := by
  induction h with
  | of h =>
    obtain ⟨ps, w₁, hps, h⟩ := Action.gives_bind.1 h
    obtain ⟨found, -, rfl, -⟩ := gives_expand hps
    exact refresh_sound found.distinct h
  | refresh _ k ih => exact refresh_sound ih.distinct k

/-- Entries are equal as paths only if they are the same entry. -/
theorem Sound.eq_of_beq {b : Bundle} (h : b.Sound c) {p q : Path} (hp : p ∈ b.files) (hq : q ∈ b.files)
    (e : (p == q) = true) : p = q := by
  have : Std.Symm fun p q : Path => ¬ (p == q) = true := ⟨fun _ _ k e => k (BEq.symm e)⟩
  by_contra hne
  exact h.distinct.forall hp hq hne e

theorem isEntry_of_mem {b : Bundle} {p : Path} (hp : p ∈ b.files) : b.isEntry p = true :=
  List.any_eq_true.2 ⟨p, hp, BEq.rfl⟩

end Bundle

/-! ### Bundles in memory -/

/-- Files that are their own names, with the imports of a graph and some paths that exist. -/
def Collaborators.ofGraph (g : Graph) (there : List Path) : Collaborators Unit where
  trace ps := .lift (g.trace ps)
  load p := pure ⟨p.text, .identity p.text p.text⟩
  isThere _ p := there.any (· == p)
  disk _ := default
  emit _ w := w

namespace Bundle

/-- The bundle in memory that patterns stand for; an empty one if it cannot be made. -/
def ofGraph (g : Graph) (there : List Path) (patterns : List String) (options : Options) : Bundle :=
  (Bundle.of (.ofGraph g there) patterns options ()).1.toOption.getD default

theorem ofGraph_built {g : Graph} {there : List Path} {patterns : List String} {options : Options}
    (h : (Bundle.of (.ofGraph g there) patterns options ()).1.isOk = true) :
    Built (.ofGraph g there) (ofGraph g there patterns options) :=
  .of (Action.gives_of_isOk h)

/-- Two files that need a third. -/
def fork : Graph :=
  { rows := [((⟨"a"⟩ : Path).components, [⟨"s"⟩]), ((⟨"b"⟩ : Path).components, [⟨"s"⟩])] }

/-- The same below a directory. -/
def forkBelow : Graph :=
  { rows := [((⟨"src/a.js"⟩ : Path).components, [⟨"src/s.js"⟩]),
      ((⟨"src/b.js"⟩ : Path).components, [⟨"src/s.js"⟩])] }

/-- A path is in a list if one is there with its spelling. -/
theorem mem_of_text {p : Path} {ps : List Path} (h : p.text ∈ ps.map (·.text)) : p ∈ ps := by
  obtain ⟨q, hq, e⟩ := List.mem_map.1 h
  cases p
  cases q
  cases e
  exact hq

end Bundle

end ScriptBundler
