import ScriptBundler.Proofs.Bundle.Output

/-!
# Where the output of a file goes

The destinations of a file are meant to be the entries whose output holds it. They are (`destinations_agree_iff`),
but for a common file of a bundle with a destination: it is said to go to the destination only, while each entry that
matches the pattern carries it. The two answers differ on an entry that is a carrier without being the destination,
or the destination without being a carrier.

For all other files `gives_destinations` finds the entries whose trace holds the file, and a bundle without a
destination has no carriers at all (`Sound.not_isCarrier`).
-/

namespace ScriptBundler

variable {σ : Type} {trace : List Path → Action σ (List TracedFile)} {T : Path → List TracedFile}

/-- With a steady tracer the entries that need a file are found by a filter. -/
private theorem gives_entriesWith (hT : Steady trace T) {p : Path} {entries ds : List Path} {w w' : σ}
    (h : (entriesWith trace p entries).Gives w ds w') : ds = entries.filter fun e => (T e).any (·.path == p) := by
  induction entries generalizing w w' ds with
  | nil => exact (Action.gives_pure.1 h).1.symm
  | cons e es ih =>
    obtain ⟨fs, w₁, hfs, h⟩ := Action.gives_bind.1 h
    obtain ⟨rest, w₂, hrest, h⟩ := Action.gives_bind.1 h
    obtain ⟨rfl, -⟩ := Action.gives_pure.1 h
    rw [ih hrest, hT e w fs w₁ hfs, List.filter_cons]

/-- Where no destination is found, no entry matches the pattern. -/
private theorem not_matches_of_commonDestination?_eq_none {entries : List Path} {option : CommonOption}
    {isThere : Path → Bool} (h : commonDestination? entries option isThere = none) {pattern : String}
    (hp : option.pattern? = some pattern) {e : Path} (he : e ∈ entries) : ¬ Glob.pathMatches e.text pattern = true := by
  unfold commonDestination? at h
  rw [hp, Option.bind_eq_bind, Option.bind_some, Option.or_eq_none_iff] at h
  exact List.find?_eq_none.1 h.1 e he

namespace Bundle

variable {c : Collaborators σ} {b : Bundle}

/-- A bundle without a destination has no carriers. -/
theorem Sound.not_isCarrier (h : b.Sound c) (hd : b.destination = none) {e : Path} (he : e ∈ b.files) :
    ¬ b.isCarrier e = true := by
  obtain ⟨w, hw⟩ := h.destination
  rw [hd] at hw
  unfold isCarrier
  cases hp : b.options.common.pattern? with
  | none => simp
  | some pattern => exact not_matches_of_commonDestination?_eq_none hw.symm hp he

/-- A common file goes to the destination if there is one, any other file to the entries that need it. -/
theorem gives_destinations (hT : Steady c.trace T) {p : Path} {w w' : σ} {ds : List Path}
    (h : (b.destinations c p).Gives w ds w') :
    (∃ d, b.destination = some d ∧ b.partition.common.contains p = true ∧ ds = [d]) ∨
      (¬ (b.destination.isSome = true ∧ b.partition.common.contains p = true) ∧
        ds = b.files.filter fun e => (T e).any (·.path == p)) := by
  unfold destinations destinationsOf at h
  split at h
  · rename_i d hc hd
    exact .inl ⟨d, hd, hc, (Action.gives_pure.1 h).1.symm⟩
  · rename_i hne
    refine .inr ⟨?_, gives_entriesWith hT h⟩
    rintro ⟨hd, hc⟩
    obtain ⟨d, hd⟩ := Option.isSome_iff_exists.1 hd
    exact hne d hc hd

/-- Whether the output of an entry holds a file, and whether the entry is among its destinations, comes to the same
unless the file is common and the entry is only one of a carrier and the destination. -/
theorem destinations_agree_iff (hb : Built c b) (hT : Steady c.trace T) {e p : Path} (he : e ∈ b.files)
    {w₁ w₁' w₂ w₂' : σ} {out : Compiled} {ds : List Path}
    (ho : (b.compileOutput c (some [e])).Gives w₁ out w₁') (hd : (b.destinations c p).Gives w₂ ds w₂') :
    ((∃ q ∈ out.traced, (q == p) = true) ↔ ∃ d ∈ ds, (d == e) = true) ↔
      ¬ (b.partition.common.contains p = true ∧
        ∃ d, b.destination = some d ∧ ¬ (b.isCarrier e = true ↔ (d == e) = true)) := by
  obtain ⟨fs, v, v', hfs, traced_eq⟩ := gives_compileOutput_entry (isEntry_of_mem he) ho
  rw [traced_eq, exists_mem_listing, hT e v fs v' hfs]
  rcases gives_destinations hT hd with ⟨d, hdest, hc, rfl⟩ | ⟨hn, rfl⟩
  · simp [hdest, hc]
  · -- entries are distinct, so that no other one is equal to this
    have found : (∃ d ∈ b.files.filter fun e => (T e).any (·.path == p), (d == e) = true) ↔
        ∃ q ∈ (T e).map (·.path), (q == p) = true := by
      simp only [List.mem_filter, List.any_eq_true, List.mem_map, exists_exists_and_eq_and]
      constructor
      · rintro ⟨d, ⟨hd, hp⟩, hde⟩
        exact hb.sound.eq_of_beq hd he hde ▸ hp
      · exact fun hp => ⟨e, ⟨he, hp⟩, BEq.rfl⟩
    have carried : ¬ (b.isCarrier e = true ∧ b.partition.common.contains p = true) := by
      rintro ⟨hcar, hc⟩
      cases hdest : b.destination with
      | none => exact hb.sound.not_isCarrier hdest he hcar
      | some d => exact hn ⟨by simp [hdest], hc⟩
    refine iff_of_true ?_ ?_
    · rw [found]
      simp [carried, hn]
    · rintro ⟨hc, d, hdest, -⟩
      exact hn ⟨by simp [hdest], hc⟩

theorem destinations_agree_fork : ∃ (b : Bundle) (out : Compiled) (ds : List Path),
    Built (.ofGraph fork []) b ∧ Steady (Collaborators.ofGraph fork []).trace fork.walk ∧ (⟨"a"⟩ : Path) ∈ b.files ∧
      (b.compileOutput (.ofGraph fork []) (some [⟨"a"⟩])).Gives () out () ∧
      (b.destinations (.ofGraph fork []) ⟨"s"⟩).Gives () ds () ∧
      (((∃ q ∈ out.traced, (q == ⟨"s"⟩) = true) ↔ ∃ d ∈ ds, (d == ⟨"a"⟩) = true) ↔
        ¬ (b.partition.common.contains ⟨"s"⟩ = true ∧
          ∃ d, b.destination = some d ∧ ¬ (b.isCarrier ⟨"a"⟩ = true ↔ (d == ⟨"a"⟩) = true))) := by
  have hb : Built (.ofGraph fork []) (ofGraph fork [] ["a", "b"] { common := .enabled }) := ofGraph_built (by decide)
  have hT : Steady (Collaborators.ofGraph fork []).trace fork.walk := (Graph.batched_trace rfl).steady
  have he : (⟨"a"⟩ : Path) ∈ (ofGraph fork [] ["a", "b"] { common := .enabled }).files := mem_of_text (by decide)
  have ho := Action.gives_of_isOk (x := compileOutput (.ofGraph fork [])
    (ofGraph fork [] ["a", "b"] { common := .enabled }) (some [⟨"a"⟩])) (by decide)
  have hd := Action.gives_of_isOk (x := destinations (.ofGraph fork [])
    (ofGraph fork [] ["a", "b"] { common := .enabled }) ⟨"s"⟩) (by decide)
  exact ⟨_, _, _, hb, hT, he, ho, hd, destinations_agree_iff hb hT he ho hd⟩

/-- A pattern that matches two entries puts the common files into both outputs, but their destination is the first. -/
theorem destinations_miss_carrier : ∃ (b : Bundle) (out : Compiled) (ds : List Path),
    Built (.ofGraph forkBelow []) b ∧ Steady (Collaborators.ofGraph forkBelow []).trace forkBelow.walk ∧
      (⟨"src/b.js"⟩ : Path) ∈ b.files ∧
      (b.compileOutput (.ofGraph forkBelow []) (some [⟨"src/b.js"⟩])).Gives () out () ∧
      (b.destinations (.ofGraph forkBelow []) ⟨"src/s.js"⟩).Gives () ds () ∧
      (∃ q ∈ out.traced, (q == ⟨"src/s.js"⟩) = true) ∧ ¬ ∃ d ∈ ds, (d == ⟨"src/b.js"⟩) = true := by
  have hb : Built (.ofGraph forkBelow [])
      (ofGraph forkBelow [] ["src/a.js", "src/b.js"] { common := .pattern "src/*.js" }) :=
    ofGraph_built (by decide +kernel)
  have ho := Action.gives_of_isOk (x := compileOutput (.ofGraph forkBelow [])
    (ofGraph forkBelow [] ["src/a.js", "src/b.js"] { common := .pattern "src/*.js" }) (some [⟨"src/b.js"⟩]))
    (by decide +kernel)
  have hd := Action.gives_of_isOk (x := destinations (.ofGraph forkBelow [])
    (ofGraph forkBelow [] ["src/a.js", "src/b.js"] { common := .pattern "src/*.js" }) ⟨"src/s.js"⟩)
    (by decide +kernel)
  exact ⟨_, _, _, hb, (Graph.batched_trace rfl).steady, mem_of_text (by decide +kernel), ho, hd, by decide +kernel,
    by decide +kernel⟩

end Bundle

end ScriptBundler
