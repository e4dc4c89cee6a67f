import ScriptBundler.Proofs.Bundle.Output

/-!
# How often common files come

Once common files have a destination they are left out of the files of every entry, and stand in front of each entry
that carries them. So an output holds each of them as often as it holds carriers (`compileOutput_countP_common`). There
may be several of these in one output: the pattern may match more than one entry, and an entry may be asked for twice
(`compileOutput_repeats_common`).
-/

namespace ScriptBundler.Bundle

variable {σ : Type} {c : Collaborators σ} {b : Bundle} {p : Path} {w w' : σ}

/-- The files of an entry hold a common file once if the entry is a carrier. -/
private theorem countP_listing (hd : b.destination.isSome = true) (hp : b.partition.common.contains p = true)
    (entry : Path)
    (trace : List Path) : (b.listing entry trace).countP (· == p) = if b.isCarrier entry = true then 1 else 0 := by
  have own : (trace.filter (!b.partition.common.contains ·)).countP (· == p) = 0 := by
    rw [List.countP_eq_zero]
    intro q hq e
    have apart := (List.mem_filter.1 hq).2
    rw [PathSet.contains_congr e, hp] at apart
    cases apart
  unfold listing
  rw [if_pos hd, List.countP_append, own, Nat.add_zero]
  split
  · exact PathSet.countP_toList hp
  · rfl

/-- The files of entries hold a common file as often as there are carriers among them. -/
private theorem gives_workingList_countP (hd : b.destination.isSome = true) {entries traced bundled : List Path}
    (h : (b.workingList c entries).Gives w (traced, bundled) w') : bundled = entries.filter b.isEntry ∧
      ∀ p, b.partition.common.contains p = true → traced.countP (· == p) = bundled.countP b.isCarrier := by
  induction entries generalizing w w' traced bundled with
  | nil =>
    obtain ⟨e, -⟩ := Action.gives_pure.1 h
    cases e
    exact ⟨rfl, fun _ _ => rfl⟩
  | cons entry entries ih =>
    unfold workingList at h
    split at h
    · rename_i he
      obtain ⟨files, w₁, hfiles, h⟩ := Action.gives_bind.1 h
      obtain ⟨⟨traced', bundled'⟩, w₂, hrest, h⟩ := Action.gives_bind.1 h
      obtain ⟨e, -⟩ := Action.gives_pure.1 h
      cases e
      obtain ⟨rfl, counts⟩ := ih hrest
      obtain ⟨fs, -, rfl⟩ := gives_filesOf hfiles
      refine ⟨(List.filter_cons_of_pos he).symm, fun p hp => ?_⟩
      rw [List.countP_append, countP_listing hd hp, counts p hp, List.countP_cons, Nat.add_comm]
    · rename_i he
      rw [List.filter_cons_of_neg he]
      exact ih h

/-- If the common files have a destination, an output holds each of them as often as carriers are among the entries
that it was asked for. -/
theorem compileOutput_countP_common (hd : b.destination.isSome = true) {paths : Option (List Path)} {out : Compiled}
    (h : (b.compileOutput c paths).Gives w out w') :
    (∃ entries w₁, (b.asked c paths).Gives w entries w₁ ∧ out.bundled = entries.filter b.isEntry) ∧
      ∀ p, b.partition.common.contains p = true → out.traced.countP (· == p) = out.bundled.countP b.isCarrier := by
  obtain ⟨entries, w₁, traced, bundled, w₂, asked, listed, assembled⟩ := gives_compileOutput h
  obtain ⟨bundled_eq, counts⟩ := gives_workingList_countP hd listed
  obtain ⟨files, -, rfl⟩ := gives_assemble assembled
  exact ⟨⟨entries, w₁, asked, bundled_eq⟩, counts⟩

/-- The second entry carries the file that both need. It is asked for in the midst of others. -/
theorem compileOutput_countP_common_fork : ∃ (b : Bundle) (out : Compiled), Built (.ofGraph forkBelow []) b ∧
    b.destination.isSome = true ∧ b.partition.common.contains ⟨"src/s.js"⟩ = true ∧
    (b.compileOutput (.ofGraph forkBelow []) (some [⟨"src/a.js"⟩, ⟨"src/b.js"⟩, ⟨"src/s.js"⟩, ⟨"src/a.js"⟩])).Gives () out () ∧
    out.traced.map (·.text) = ["src/a.js", "src/s.js", "src/b.js", "src/a.js"] ∧
    out.traced.countP (· == ⟨"src/s.js"⟩) = out.bundled.countP b.isCarrier := by
  have hb : Built (.ofGraph forkBelow [])
      (ofGraph forkBelow [] ["src/a.js", "src/b.js"] { common := .pattern "src/b.*" }) :=
    ofGraph_built (by decide +kernel)
  have hd : (ofGraph forkBelow [] ["src/a.js", "src/b.js"] { common := .pattern "src/b.*" }).destination.isSome = true := by
    decide +kernel
  have hp : (ofGraph forkBelow [] ["src/a.js", "src/b.js"]
      { common := .pattern "src/b.*" }).partition.common.contains ⟨"src/s.js"⟩ = true := by
    decide +kernel
  have h := Action.gives_of_isOk (x := compileOutput (.ofGraph forkBelow [])
    (ofGraph forkBelow [] ["src/a.js", "src/b.js"] { common := .pattern "src/b.*" })
    (some [⟨"src/a.js"⟩, ⟨"src/b.js"⟩, ⟨"src/s.js"⟩, ⟨"src/a.js"⟩])) (by decide +kernel)
  exact ⟨_, _, hb, hd, hp, h, by decide +kernel, (compileOutput_countP_common hd h).2 _ hp⟩

/-- A pattern that matches both entries puts the common file in front of each of them. -/
theorem compileOutput_repeats_common : ∃ (b : Bundle) (out : Compiled), Built (.ofGraph forkBelow []) b ∧
    b.destination.isSome = true ∧ b.partition.common.contains ⟨"src/s.js"⟩ = true ∧
    (b.compileOutput (.ofGraph forkBelow []) none).Gives () out () ∧
    out.traced.map (·.text) = ["src/s.js", "src/a.js", "src/s.js", "src/b.js"] ∧
    ¬ out.traced.countP (· == ⟨"src/s.js"⟩) ≤ 1 := by
  have hb : Built (.ofGraph forkBelow [])
      (ofGraph forkBelow [] ["src/a.js", "src/b.js"] { common := .pattern "src/*.js" }) :=
    ofGraph_built (by decide +kernel)
  have h := Action.gives_of_isOk (x := compileOutput (.ofGraph forkBelow [])
    (ofGraph forkBelow [] ["src/a.js", "src/b.js"] { common := .pattern "src/*.js" }) none) (by decide +kernel)
  exact ⟨_, _, hb, by decide +kernel, by decide +kernel, h, by decide +kernel, by decide +kernel⟩

end ScriptBundler.Bundle
