import ScriptBundler.Proofs.Glob.Expand
import ScriptBundler.Proofs.PathSet

/-!
# Expanding what is expanded already

What patterns stand for is expanded again before it is bundled. A path is settled if it then stands for itself alone.
There are four kinds of paths in an expansion: texts without pattern syntax, names of something, patterns for which
nothing is found, and what is found for a pattern. The first three are settled on every disk (`settled_of_not_magic`,
`settled_of_exists`, `settled_of_unmatched`), and the last one is if it exists. So an expansion is its own expansion
(`expand_expand`).
-/

namespace ScriptBundler.Glob

variable {d : Disk} {p : Path} {pattern : String} {patterns : List String} {ps : List Path} {found : PathSet}

/-- What is found for the patterns exists. -/
def FindsExisting (d : Disk) (patterns : List String) : Prop :=
  ∀ pattern ∈ patterns, ∀ ps, paths d pattern = .ok ps → ∀ p ∈ ps, d.exists p = true

/-- The path stands for itself when it is read as a pattern. -/
def Settled (d : Disk) (p : Path) : Prop := expandOne d p.text = .ok [p]

theorem settled_of_not_magic (h : ¬ hasMagic p.text = true) : Settled d p := by
  rw [Settled, expandOne, if_pos (.inl h)]

theorem settled_of_exists (h : d.exists p = true) : Settled d p := by
  rw [Settled, expandOne, if_pos (.inr h)]

theorem settled_of_unmatched (h : paths d p.text = .ok []) : Settled d p := by
  unfold Settled expandOne
  split
  · rfl
  · rw [h]

/-- One pattern stands for settled paths only. -/
private theorem settled_of_mem_expandOne (existing : ∀ ps, paths d pattern = .ok ps → ∀ p ∈ ps, d.exists p = true)
    (h : expandOne d pattern = .ok ps) (hp : p ∈ ps) : Settled d p := by
  rw [expandOne] at h
  split at h
  · rename_i literal
    obtain rfl := Except.ok.inj h
    obtain rfl := List.mem_singleton.1 hp
    exact literal.elim settled_of_not_magic settled_of_exists
  · split at h
    · cases h
    · rename_i unmatched
      obtain rfl := Except.ok.inj h
      obtain rfl := List.mem_singleton.1 hp
      exact settled_of_unmatched unmatched
    · rename_i matched
      obtain rfl := Except.ok.inj h
      exact settled_of_exists (existing _ matched p hp)

theorem settled_of_mem_expand (existing : FindsExisting d patterns) (h : expand d patterns = .ok found)
    (hp : p ∈ found.toList) : Settled d p := by
  obtain ⟨pattern, named, ps, expanded, hp⟩ := mem_of_expand h hp
  exact settled_of_mem_expandOne (existing pattern named) expanded hp

/-- Settled paths are expanded to themselves. -/
theorem expand_of_settled (h : ∀ p ∈ found.toList, Settled d p) : expand d (found.toList.map (·.text)) = .ok found := by
  rw [expand_map h, List.map_id', PathSet.ofList_toList]

/-- If what is found exists, an expansion has no path twice and is its own expansion. -/
theorem expand_expand (existing : FindsExisting d patterns) (h : expand d patterns = .ok found) :
    found.toList.Pairwise (fun p q => ¬ (p == q) = true) ∧ expand d (found.toList.map (·.text)) = .ok found :=
  ⟨found.distinct, expand_of_settled fun _ hp => settled_of_mem_expand existing h hp⟩

/-- Two scripts, of which the name of one can be read as a pattern for the other. -/
def routes : Disk where
  workingDirectory := []
  nodes := [(["[x].js"], .file ByteArray.empty 0), (["x.js"], .file ByteArray.empty 0)]

private theorem paths_routes :
    paths routes "/*.js" = .ok [⟨"/[x].js"⟩, ⟨"/x.js"⟩] ∧ paths routes "/[x].js" = .ok [⟨"/x.js"⟩] ∧
    paths routes "/n*" = .ok [] ∧ paths routes "x.js" = .ok [⟨"x.js"⟩] := by
  have sorted : (routes.namesIn []).mergeSort (fun a b => a ≤ b) = ["[x].js", "x.js"] :=
    List.mergeSort_of_pairwise (by decide)
  have all : paths routes "/*.js" = .ok [⟨"/[x].js"⟩, ⟨"/x.js"⟩] := by
    rw [paths_of_piece ⟨[.anyRun, .char '.', .char 'j', .char 's']⟩ (by decide +kernel) (by decide +kernel)
      (by decide) (by decide) (by decide) (by decide), sorted]
    rfl
  have one : paths routes "/[x].js" = .ok [⟨"/x.js"⟩] := by
    rw [paths_of_piece ⟨[.within [.one 'x'], .char '.', .char 'j', .char 's']⟩ (by decide +kernel)
      (by decide +kernel) (by decide) (by decide) (by decide) (by decide), sorted]
    rfl
  have none : paths routes "/n*" = .ok [] := by
    rw [paths_of_piece ⟨[.char 'n', .anyRun]⟩ (by decide +kernel) (by decide +kernel) (by decide) (by decide)
      (by decide) (by decide), sorted]
    rfl
  have literal : paths routes "x.js" = .ok [⟨"x.js"⟩] := by
    have whole : parse "x.js" = .ok [.char 'x', .char '.', .char 'j', .char 's'] := by decide +kernel
    have pieces : (steps "x.js").mapM parse = .ok [[.char 'x', .char '.', .char 'j', .char 's']] := by decide +kernel
    rw [paths_eq, whole, pieces]
    show Except.ok (Search.below _ (16387 + 1) _ ⟨"."⟩) = _
    rfl
  exact ⟨all, one, none, literal⟩

/-- What is found is not read as a pattern again, though it could be. -/
theorem expand_expand_routes : FindsExisting routes ["/*.js", "/[x].js", "/n*", "x.js"] ∧
    expand routes ["/*.js", "/[x].js", "/n*", "x.js"] = .ok (.ofList [⟨"/[x].js"⟩, ⟨"/x.js"⟩, ⟨"/n*"⟩, ⟨"x.js"⟩]) ∧
    (PathSet.ofList [⟨"/[x].js"⟩, ⟨"/x.js"⟩, ⟨"/n*"⟩, ⟨"x.js"⟩]).toList.Pairwise (fun p q => ¬ (p == q) = true) ∧
    expand routes ["/[x].js", "/x.js", "/n*", "x.js"] = .ok (.ofList [⟨"/[x].js"⟩, ⟨"/x.js"⟩, ⟨"/n*"⟩, ⟨"x.js"⟩]) := by
  obtain ⟨all, one, none, literal⟩ := paths_routes
  have existing : FindsExisting routes ["/*.js", "/[x].js", "/n*", "x.js"] := by
    have there : routes.exists ⟨"/[x].js"⟩ = true ∧ routes.exists ⟨"/x.js"⟩ = true ∧ routes.exists ⟨"x.js"⟩ = true := by
      decide +kernel
    simp [FindsExisting, all, one, none, literal, there]
  have expanded : expand routes ["/*.js", "/[x].js", "/n*", "x.js"] =
      .ok (.ofList [⟨"/[x].js"⟩, ⟨"/x.js"⟩, ⟨"/n*"⟩, ⟨"x.js"⟩]) := by
    have found : expandOne routes "/*.js" = .ok [⟨"/[x].js"⟩, ⟨"/x.js"⟩] := by
      rw [expandOne, if_neg (by decide +kernel), all]
    have named : expandOne routes "/[x].js" = .ok [⟨"/[x].js"⟩] := settled_of_exists (by decide +kernel)
    have unmatched : expandOne routes "/n*" = .ok [⟨"/n*"⟩] := settled_of_unmatched none
    have plain : expandOne routes "x.js" = .ok [⟨"x.js"⟩] := settled_of_not_magic (by decide +kernel)
    simp only [expand, List.foldlM_cons, List.foldlM_nil, found, named, unmatched, plain]
    rfl
  exact ⟨existing, expanded, expand_expand existing expanded⟩

end ScriptBundler.Glob
