import ScriptBundler.Bundle.Session
import ScriptBundler.Proofs.Bundle.Built
import ScriptBundler.Proofs.Partition

/-!
# Sessions keep their bundles together

Whatever a tracer answers, the parts of a bundle that has been made fit together (`Sound.coherent`). A session may change
its world at will between requests, and its bundle stays one that has been made: a request that finds it anew replaces
all parts at once, and every other request, a refresh that fails included, leaves it alone (`step_bundle`). So the parts
fit together after each request, and the destination is that of the world in which the bundle was last found
(`run_coherent`).
-/

namespace ScriptBundler

namespace Bundle

variable {σ : Type} {c : Collaborators σ} {b : Bundle}

/-- The parts of a bundle fit together, whatever its tracer may have answered. -/
structure Coherent (c : Collaborators σ) (b : Bundle) : Prop where
  disjoint : ∀ p, b.partition.common.contains p = true → ¬ b.partition.uncommon.contains p = true
  covers : ∀ p ∈ b.partition.all, b.partition.common.contains p = true ∨ b.partition.uncommon.contains p = true
  /-- The files of the trace, each at its first place, without the common ones. -/
  uncommon : b.partition.uncommon.toList = b.partition.all.eraseDups.filter (!b.partition.common.contains ·)
  common : b.partition.common = if b.options.common.isEnabled then b.partition.shared else .empty
  /-- A single file is loaded if it is in the trace, and is empty otherwise. -/
  compileOne : ∀ p, b.compileOne c p = if b.partition.all.any (· == p) then return (← c.load p).code else return ""

theorem Sound.coherent (h : b.Sound c) : b.Coherent c := by
  obtain ⟨w, w', hP⟩ := h.partition
  obtain ⟨-, common_eq, uncommon_eq⟩ := Partition.gives_of hP
  refine ⟨fun p hc hu => ?_, fun p hp => ?_, ?_, common_eq, fun p => ?_⟩
  · exact ((Partition.contains_uncommon hP).1 hu).2 hc
  · by_cases hc : b.partition.common.contains p = true
    · exact .inl hc
    · exact .inr ((Partition.contains_uncommon hP).2 ⟨⟨p, hp, BEq.rfl⟩, hc⟩)
  · rw [uncommon_eq, PathSet.toList_filter, PathSet.toList_ofList]
  · have traced_iff : b.traced.contains p = b.partition.all.any (· == p) := by
      rw [Bool.eq_iff_iff, h.traced, PathSet.contains_ofList, List.any_eq_true]
    unfold Bundle.compileOne
    rw [traced_iff]

end Bundle

namespace Session

variable {σ : Type} {c : Collaborators σ} {s : Session σ} {w : σ} {r : Request σ} {rs : List (Request σ)}

/-- Whether a request finds the bundle anew: only a refresh that does not fail does. -/
def finds (c : Collaborators σ) (s : Session σ) : Request σ → Bool
  | .refresh => (s.step c .refresh).1.isOk
  | _ => false

/-- The world in which the bundle was last found. It was found in `w` to begin with. -/
def lastFound (c : Collaborators σ) (w : σ) (s : Session σ) : List (Request σ) → σ
  | [] => w
  | r :: rs => lastFound c (if s.finds c r then (s.step c r).2.world else w) (s.step c r).2 rs

/-! ### One request -/

private theorem step_refresh :
    (∃ b w', (s.bundle.refresh c).Gives s.world b w' ∧ s.step c .refresh = (.ok .done, ⟨w', b⟩)) ∨
    ∃ f w', (s.bundle.refresh c).Refuses s.world f w' ∧ s.step c .refresh = (.error f, { s with world := w' }) := by
  unfold step
  rcases e : s.bundle.refresh c s.world with ⟨f | b, w'⟩
  · exact .inr ⟨f, w', e, rfl⟩
  · exact .inl ⟨b, w', e, rfl⟩

/-- A request leaves the bundle alone, unless it finds it anew. -/
theorem step_bundle (h : ¬ s.finds c r = true) : (s.step c r).2.bundle = s.bundle := by
  cases r with
  | refresh =>
    rcases step_refresh (c := c) (s := s) with ⟨b, w', -, e⟩ | ⟨f, w', -, e⟩
    · rw [finds, e] at h
      exact absurd rfl h
    · rw [e]
  | _ => rfl

/-- A request that finds the bundle anew ends in the world in which it has been found. -/
private theorem step_of_finds (h : s.finds c r = true) :
    (s.bundle.refresh c).Gives s.world (s.step c r).2.bundle (s.step c r).2.world := by
  cases r with
  | refresh =>
    rcases step_refresh (c := c) (s := s) with ⟨b, w', hb, e⟩ | ⟨f, w', -, e⟩
    · rwa [e]
    · rw [finds, e] at h
      cases h
  | _ => cases h

/-! ### Many requests -/

/-- The bundle is one that can be made, and its destination is that of the world `w`. -/
structure Settled (c : Collaborators σ) (w : σ) (b : Bundle) : Prop where
  built : Bundle.Built c b
  destination : b.destination = commonDestination? b.files b.options.common (c.isThere w)

private theorem settled_of_refresh {b b' : Bundle} {w' : σ} (hb : Bundle.Built c b') (h : (b.refresh c).Gives w b' w') :
    Settled c w' b' := by
  obtain ⟨options_eq, files_eq, -, -, destination_eq⟩ := Bundle.gives_refresh h
  exact ⟨hb, by rw [destination_eq, options_eq, files_eq]⟩

private theorem Settled.step (h : Settled c w s.bundle) (r : Request σ) :
    Settled c (if s.finds c r then (s.step c r).2.world else w) (s.step c r).2.bundle := by
  by_cases hr : s.finds c r = true
  · rw [if_pos hr]
    exact settled_of_refresh (.refresh h.built (step_of_finds hr)) (step_of_finds hr)
  · rw [if_neg hr, step_bundle hr]
    exact h

/-- The options and the entries of a bundle are not touched by any request. -/
private theorem step_constant (r : Request σ) :
    (s.step c r).2.bundle.options = s.bundle.options ∧ (s.step c r).2.bundle.files = s.bundle.files := by
  by_cases hr : s.finds c r = true
  · obtain ⟨options_eq, files_eq, -⟩ := Bundle.gives_refresh (step_of_finds hr)
    exact ⟨options_eq, files_eq⟩
  · rw [step_bundle hr]
    exact ⟨rfl, rfl⟩

private theorem run_settled (h : Settled c w s.bundle) (rs : List (Request σ)) :
    Settled c (lastFound c w s rs) (s.run c rs).bundle ∧
      (s.run c rs).bundle.options = s.bundle.options ∧ (s.run c rs).bundle.files = s.bundle.files := by
  induction rs generalizing s w with
  | nil => exact ⟨h, rfl, rfl⟩
  | cons r rs ih =>
    obtain ⟨settled, options_eq, files_eq⟩ := ih (h.step r)
    obtain ⟨options_eq', files_eq'⟩ := step_constant (c := c) (s := s) r
    exact ⟨settled, options_eq.trans options_eq', files_eq.trans files_eq'⟩

/-- After any requests the parts of a bundle fit together, its destination is the one that was looked for when it was last
found, and the next request changes nothing of it, unless that finds it anew. -/
theorem run_coherent {patterns : List String} {options : Options} {w w' : σ} {b : Bundle}
    (h : (Bundle.of c patterns options).Gives w b w') (rs : List (Request σ))
    (hs : s = (⟨w', b⟩ : Session σ).run c rs) :
    s.bundle.Coherent c ∧ s.bundle.options = options ∧ s.bundle.files = b.files ∧
      s.bundle.destination = commonDestination? b.files options.common (c.isThere (lastFound c w' ⟨w', b⟩ rs)) ∧
      ∀ r, ¬ s.finds c r = true → (s.step c r).2.bundle = s.bundle := by
  obtain ⟨files, w₁, -, refreshed⟩ := Action.gives_bind.1 h
  have made : b.options = options := (Bundle.gives_refresh refreshed).1
  obtain ⟨settled, options_eq, files_eq⟩ := run_settled (s := ⟨w', b⟩) (settled_of_refresh (.of h) refreshed) rs
  rw [← hs] at settled options_eq files_eq
  refine ⟨settled.built.sound.coherent, options_eq.trans made, files_eq, ?_, fun r => step_bundle⟩
  rw [settled.destination, options_eq, files_eq, made]

/-- Files in memory whose imports may change. A path is there if it has a row. -/
def inMemory : Collaborators Graph where
  trace ps g := (g.trace ps, g)
  load p := pure ⟨p.text, .identity p.text p.text⟩
  isThere g p := (g.rows.get? p).isSome
  disk _ := default
  emit _ g := g

/-- The requests of a session: its third file cannot be traced for a while, so that the second trace of the first refresh
fails; then a path for the common files comes to be there, and the first file asks for one that is new. -/
def troubled : List (Request Graph) :=
  [.change fun g => { g with failing := [⟨"s"⟩] }, .refresh, .compileOne ⟨"s"⟩,
    .change fun g => { g with failing := [], rows := (g.rows.set ⟨"lib"⟩ []).set ⟨"a"⟩ [⟨"n"⟩, ⟨"s"⟩] }, .refresh,
    .change fun g => { g with rows := g.rows.set ⟨"b"⟩ [] }, .destinations ⟨"s"⟩]

/-- The first refresh leaves the bundle without a destination, and the second one finds it as it was then. -/
theorem run_coherent_troubled : ∃ b g, (Bundle.of inMemory ["a", "b"] { common := .pattern "lib" }).Gives Bundle.fork b g ∧
    b.destination.map (·.text) = none ∧
    (((⟨g, b⟩ : Session Graph).run inMemory (troubled.take 1)).step inMemory .refresh).1.isOk = false ∧
    ((⟨g, b⟩ : Session Graph).run inMemory (troubled.take 3)).bundle = b ∧
    ∃ s, s = (⟨g, b⟩ : Session Graph).run inMemory troubled ∧ s.bundle.Coherent inMemory ∧
      s.bundle.destination.map (·.text) = some "lib" ∧ s.bundle.partition.common.toList.map (·.text) = ["s"] ∧
      s.bundle.partition.uncommon.toList.map (·.text) = ["n", "a", "b"] := by
  have made := Action.gives_from (x := Bundle.of inMemory ["a", "b"] { common := .pattern "lib" }) Bundle.fork
    (by decide +kernel)
  have coherent := run_coherent made troubled rfl
  refine ⟨_, _, made, by decide +kernel, by decide +kernel, rfl, _, rfl, coherent.1, ?_, ?_, ?_⟩
  all_goals decide +kernel

end Session

end ScriptBundler
