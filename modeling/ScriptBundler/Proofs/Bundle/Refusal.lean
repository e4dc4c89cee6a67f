import ScriptBundler.Proofs.Bundle.Requests
import ScriptBundler.Proofs.Glob.Expand

/-!
# Requests that are refused

A request may name files that are no entries: they are passed over. But first such a path is read as a pattern, so with
a tracer and a loader that never fail it is the wording of a request that decides whether it is answered
(`compileOutput_isOk_iff`).
-/

namespace ScriptBundler

variable {σ : Type} {c : Collaborators σ} {b : Bundle} {d : Disk} {p : Path} {ps : List Path}

namespace Bundle

private theorem workingList_succeeds (traced : ∀ p, (c.trace [p]).Succeeds) (ps : List Path) :
    (b.workingList c ps).Succeeds := by
  induction ps with
  | nil => exact .pure _
  | cons p ps ih =>
    rw [workingList]
    split
    · have files : (b.filesOf c p).Succeeds := (traced p).bind fun _ => .pure _
      exact files.bind fun _ => ih.bind fun _ => .pure _
    · exact ih

private theorem assembleFrom_succeeds (loaded : ∀ p, (c.load p).Succeeds) (traced bundled ps : List Path) (index : Nat)
    (a : Assembly) : (assembleFrom c traced bundled index a ps).Succeeds := by
  induction ps generalizing index a with
  | nil => exact .pure _
  | cons p ps ih => exact (loaded p).during.bind fun _ => (Action.Succeeds.modify _).bind fun _ => ih _ _

/-- What a request stands for can always be compiled. -/
private theorem compileOutput_entries_isOk (traced : ∀ p, (c.trace [p]).Succeeds) (loaded : ∀ p, (c.load p).Succeeds)
    (h : ∀ p ∈ ps, b.isEntry p = true) (w : σ) : (b.compileOutput c (some ps) w).1.isOk = true := by
  have succeeds : (b.compileOutput c (some ps)).Succeeds := by
    rw [compileOutput_eq, asked, requested_entries h]
    exact (Action.Succeeds.pure ps).bind fun _ => (workingList_succeeds traced _).bind fun _ =>
      (assembleFrom_succeeds loaded _ _ _ _ _).bind fun _ => .pure _
  obtain ⟨out, w', e⟩ := succeeds w
  rw [e]
  rfl

/-- What a path stands for can be told unless it is no entry and cannot be read. -/
private theorem meaning_isOk_iff : (b.meaning d p).isOk = true ↔ b.isEntry p = true ∨ Glob.Readable d p.text := by
  rw [← Glob.expandOne_isOk_iff, meaning, Glob.expand_single]
  split
  · rename_i hp
    exact iff_of_true rfl (.inl hp)
  · rename_i hp
    rcases Glob.expandOne d p.text with e | found
    · simp [hp, Except.isOk, Except.toBool]
    · exact iff_of_true rfl (.inr rfl)

private theorem exists_of_meaning_error {f : Failure} (h : b.meaning d p = .error f) :
    b.isEntry p = false ∧ ∃ e, f = ⟨[.expandPattern p.text], .glob e⟩ := by
  rw [meaning, Glob.expand_single] at h
  split at h
  · cases h
  · rename_i hp
    rcases he : Glob.expandOne d p.text with e | found
    all_goals
      rw [he] at h
      cases h
    exact ⟨by simpa using hp, e, rfl⟩

/-- With a tracer and a loader that do not fail, a request succeeds exactly if each of its paths is an entry or can be
read as a pattern, which all texts can that have no bracket and no two stars in a row. Otherwise it fails for such a
path and changes nothing. A path that stands for no entry can be left out. -/
theorem compileOutput_isOk_iff (traced : ∀ p, (c.trace [p]).Succeeds) (loaded : ∀ p, (c.load p).Succeeds) (b : Bundle)
    (ps : List Path) (w : σ) :
    ((b.compileOutput c (some ps) w).1.isOk = true ↔
      ∀ p ∈ ps, b.isEntry p = true ∨ Glob.Readable (c.disk w) p.text) ∧
    ((∀ p ∈ ps, '[' ∉ p.text.toList ∧ ¬ ['*', '*'] <:+: p.text.toList) →
      (b.compileOutput c (some ps) w).1.isOk = true) ∧
    (∀ f w', (b.compileOutput c (some ps)).Refuses w f w' →
      w' = w ∧ ∃ p ∈ ps, b.isEntry p = false ∧ ∃ e, f = ⟨[.expandPattern p.text], .glob e⟩) ∧
    ∀ p found qs, b.isEntry p = false → Glob.expand (c.disk w) [p.text] = .ok found →
      (∀ q ∈ found.toList, b.isEntry q = false) →
      b.compileOutput c (some (ps ++ p :: qs)) w = b.compileOutput c (some (ps ++ qs)) w := by
  have isOk_iff : (b.compileOutput c (some ps) w).1.isOk = true ↔
      ∀ p ∈ ps, b.isEntry p = true ∨ Glob.Readable (c.disk w) p.text := by
    have meant : (b.bundledBy (c.disk w) ps).isOk = true ↔
        ∀ p ∈ ps, b.isEntry p = true ∨ Glob.Readable (c.disk w) p.text := by
      rw [bundledBy, Action.isOk_map, Action.isOk_mapM]
      exact forall₂_congr fun p _ => meaning_isOk_iff
    rw [← meant]
    rcases h : b.bundledBy (c.disk w) ps with f | es
    · rw [compileOutput_of_error h]
      rfl
    · rw [compileOutput_of_bundledBy h]
      exact iff_of_true (compileOutput_entries_isOk traced loaded (isEntry_of_bundledBy h) w) rfl
  refine ⟨isOk_iff, fun plain => ?_, fun f w' refused => ?_, fun p found qs hp hfound none => ?_⟩
  · exact isOk_iff.2 fun p hp => .inr (.inr (.inr (Glob.wellFormed_of_plain (plain p hp).1 (plain p hp).2)))
  · rcases h : b.bundledBy (c.disk w) ps with f' | es
    · have failed : (b.compileOutput c (some ps)).Refuses w f' w := compileOutput_of_error h
      obtain ⟨rfl, rfl⟩ := refused.unique failed
      have unmeant : ps.mapM (b.meaning (c.disk w')) = .error f := by
        unfold bundledBy at h
        rcases e : ps.mapM (b.meaning (c.disk w')) with f' | found
        · rw [e] at h
          cases h
          rfl
        · rw [e] at h
          cases h
      obtain ⟨p, hp, failed⟩ := Action.exists_of_mapM_error unmeant
      exact ⟨rfl, p, hp, exists_of_meaning_error failed⟩
    · have answered := compileOutput_entries_isOk traced loaded (isEntry_of_bundledBy h) w
      rw [← compileOutput_of_bundledBy h, refused] at answered
      cases answered
  · have same := bundledBy_insert hp hfound none ps qs
    rcases h : b.bundledBy (c.disk w) (ps ++ qs) with f | es
    · rw [compileOutput_of_error h, compileOutput_of_error (same.trans h)]
    · rw [compileOutput_of_bundledBy h, compileOutput_of_bundledBy (same.trans h)]

private theorem ofGraph_fork_succeeds : (∀ p, ((Collaborators.ofGraph fork []).trace [p]).Succeeds) ∧
    ∀ p, ((Collaborators.ofGraph fork []).load p).Succeeds :=
  ⟨fun _ _ => ⟨_, _, rfl⟩, fun _ _ => ⟨_, _, rfl⟩⟩

/-- Next to an entry, patterns that find nothing are asked for, and a file that is no entry. -/
theorem compileOutput_isOk_iff_fork : ∃ b, Built (.ofGraph fork []) b ∧
    (∀ p, ((Collaborators.ofGraph fork []).trace [p]).Succeeds) ∧
    (∀ p, ((Collaborators.ofGraph fork []).load p).Succeeds) ∧
    (b.compileOutput (.ofGraph fork []) (some [⟨"a"⟩, ⟨"[s]"⟩, ⟨"s*"⟩]) ()).1.isOk = true ∧
    b.compileOutput (.ofGraph fork []) (some [⟨"a"⟩, ⟨"s"⟩]) () = b.compileOutput (.ofGraph fork []) (some [⟨"a"⟩]) () := by
  have hb : Built (.ofGraph fork []) (ofGraph fork [] ["a", "b"] {}) := ofGraph_built (by decide)
  obtain ⟨traced, loaded⟩ := ofGraph_fork_succeeds
  obtain ⟨isOk_iff, -⟩ := compileOutput_isOk_iff traced loaded (ofGraph fork [] ["a", "b"] {})
    [⟨"a"⟩, ⟨"[s]"⟩, ⟨"s*"⟩] ()
  obtain ⟨-, -, -, without⟩ := compileOutput_isOk_iff traced loaded (ofGraph fork [] ["a", "b"] {}) [⟨"a"⟩] ()
  exact ⟨_, hb, traced, loaded, isOk_iff.2 (by decide +kernel),
    without ⟨"s"⟩ (.ofList [⟨"s"⟩]) [] (by decide) (by rfl) (by decide)⟩

/-- A path that is no entry, stands for none and names no file makes a request fail if it is a bracket. -/
theorem compileOutput_refuses_bracket : ∃ b, Built (.ofGraph fork []) b ∧
    (∀ p, ((Collaborators.ofGraph fork []).trace [p]).Succeeds) ∧
    (∀ p, ((Collaborators.ofGraph fork []).load p).Succeeds) ∧ b.isEntry ⟨"["⟩ = false ∧
    (default : Disk).exists ⟨"["⟩ = false ∧
    (b.compileOutput (.ofGraph fork []) (some [⟨"a"⟩]) ()).1.isOk = true ∧
    (b.compileOutput (.ofGraph fork []) (some [⟨"a"⟩, ⟨"["⟩])).Refuses ()
      ⟨[.expandPattern "["], .glob ⟨0, .openClass⟩⟩ () := by
  have hb : Built (.ofGraph fork []) (ofGraph fork [] ["a", "b"] {}) := ofGraph_built (by decide)
  obtain ⟨traced, loaded⟩ := ofGraph_fork_succeeds
  have unread : (ofGraph fork [] ["a", "b"] {}).bundledBy default [⟨"a"⟩, ⟨"["⟩] =
      .error ⟨[.expandPattern "["], .glob ⟨0, .openClass⟩⟩ := by cbv
  exact ⟨_, hb, traced, loaded, by decide, by decide +kernel, by decide, compileOutput_of_error unread⟩

end Bundle

end ScriptBundler
