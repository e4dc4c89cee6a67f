import ScriptBundler.Path.Basic

/-!
# Sets of paths

A set keeps its members in the order in which they came, each under the spelling it came with first. Membership is
equality of paths, and no two members are equal (`distinct`). The steps of the members are kept beside them
(`steps_eq`), so that a path is taken apart once and not for each comparison; `contains_iff` and `contains_insert` say
what the set holds without them.
-/

namespace ScriptBundler

/-- Paths without repetition, in the order in which they came. -/
structure PathSet where
  /-- The members. -/
  toList : List Path
  /-- No member comes twice. -/
  distinct : toList.Pairwise (fun p q => ¬ (p == q) = true) := by exact List.Pairwise.nil
  /-- The steps of each member. -/
  steps : List (List Path.Component) := toList.map Path.components
  steps_eq : steps = toList.map Path.components := by rfl

namespace PathSet

def empty : PathSet := { toList := [] }

instance : Inhabited PathSet := ⟨empty⟩

def contains (s : PathSet) (p : Path) : Bool := s.steps.contains p.components

theorem contains_iff {s : PathSet} {p : Path} : s.contains p = true ↔ ∃ q ∈ s.toList, (q == p) = true := by
  simp [contains, s.steps_eq, Path.beq_iff]

def size (s : PathSet) : Nat := s.toList.length

/-- A path that is there already keeps its place and its first spelling. -/
def insert (s : PathSet) (p : Path) : PathSet :=
  if h : s.contains p then s
  else
    { toList := s.toList ++ [p]
      distinct := by
        rw [List.pairwise_append]
        refine ⟨s.distinct, by simp, fun q hq r hr hqr => h ?_⟩
        rw [List.mem_singleton] at hr
        exact contains_iff.2 ⟨q, hq, hr ▸ hqr⟩
      steps := s.steps ++ [p.components]
      steps_eq := by simp [s.steps_eq] }

def insertAll (s : PathSet) (ps : List Path) : PathSet := ps.foldl insert s

/-- The paths of a list, each at its first place. -/
def ofList (ps : List Path) : PathSet := empty.insertAll ps

/-- The members that pass a test. -/
def filter (keep : Path → Bool) (s : PathSet) : PathSet :=
  { toList := s.toList.filter keep, distinct := s.distinct.filter keep }

theorem contains_insert {s : PathSet} {p q : Path} :
    (s.insert p).contains q = true ↔ s.contains q = true ∨ (p == q) = true := by
  unfold insert
  split
  · rename_i h
    refine ⟨Or.inl, fun hq => hq.elim id fun hpq => ?_⟩
    obtain ⟨r, hr, hrp⟩ := contains_iff.1 h
    exact contains_iff.2 ⟨r, hr, BEq.trans hrp hpq⟩
  · simp only [contains_iff, List.mem_append, List.mem_singleton]
    exact ⟨fun ⟨r, hr, hrq⟩ => hr.elim (fun hr => .inl ⟨r, hr, hrq⟩) (fun hr => .inr (hr ▸ hrq)),
      fun h => h.elim (fun ⟨r, hr, hrq⟩ => ⟨r, .inl hr, hrq⟩) (fun h => ⟨p, .inr rfl, h⟩)⟩

end PathSet

end ScriptBundler
