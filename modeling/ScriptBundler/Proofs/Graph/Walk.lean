import Mathlib.Data.List.Basic
import ScriptBundler.Proofs.PathSet
import ScriptBundler.Trace.Graph

/-!
# Walks list what a path leads to

`Reaches g p q` says that dependencies lead from `p` to `q`. A walk from `p` lists exactly the files that `p` reaches,
each once (`exists_mem_walk`, `walk_distinct`), whatever cycles the graph has. Each of them stands behind what it depends
on, unless that leads back to it (`walk_ordered`).

What a visit does is said once, in `Adds`: the files it lists are new to the walk and closed under dependencies, as
far as these had not been seen. Entering a path with dependencies uses up one row of the graph (`unseen_insert_lt`),
so a walk that may go as deep as there are rows never stops early (`visit_adds`), and gains nothing by going deeper
(`visit_of_le`).
-/

namespace ScriptBundler.Graph

/-- Dependencies lead from one path to another. How the paths are spelled does not matter. -/
inductive Reaches (g : Graph) : Path → Path → Prop where
  | here {p q : Path} (h : (p == q) = true) : Reaches g p q
  | step {p d q : Path} (h : d ∈ g.dependencies p) (k : Reaches g d q) : Reaches g p q

variable {g : Graph} {p q r : Path}

theorem dependencies_congr (h : (p == q) = true) : g.dependencies p = g.dependencies q := by
  simp only [dependencies, PathTable.get?, Path.beq_iff.1 h]

namespace Reaches

private theorem congr_left (h : (p == q) = true) (k : g.Reaches p r) : g.Reaches q r := by
  cases k with
  | here e => exact .here (BEq.trans (BEq.symm h) e)
  | step hd k => exact .step (dependencies_congr h ▸ hd) k

private theorem congr_right (k : g.Reaches p q) (h : (q == r) = true) : g.Reaches p r := by
  induction k with
  | here e => exact .here (BEq.trans e h)
  | step hd _ ih => exact .step hd (ih h)

theorem trans (h : g.Reaches p q) (k : g.Reaches q r) : g.Reaches p r := by
  induction h with
  | here e => exact congr_left (BEq.symm e) k
  | step hd _ ih => exact .step hd (ih k)

/-- A set that is closed under dependencies holds what its members lead to. -/
private theorem mem_closed {s : PathSet} (hs : ∀ x d, s.contains x = true → d ∈ g.dependencies x → s.contains d = true)
    (h : g.Reaches p q) (hp : s.contains p = true) : s.contains q = true := by
  induction h with
  | here e => exact PathSet.contains_congr e ▸ hp
  | step hd _ ih => exact ih (hs _ _ hp hd)

end Reaches

/-! ### Orders -/

/-- Each file stands behind what it depends on, unless that leads back to the file. -/
def Ordered (g : Graph) (ps : List Path) : Prop :=
  ∀ (front : List Path) (p : Path) (rest : List Path), ps = front ++ p :: rest →
    ∀ d ∈ g.dependencies p, (∃ q ∈ front, (q == d) = true) ∨ g.Reaches d p

/-- The same for files that come behind those of a set. -/
def OrderedAfter (g : Graph) (before : PathSet) (ps : List Path) : Prop :=
  ∀ (front : List Path) (p : Path) (rest : List Path), ps = front ++ p :: rest →
    ∀ d ∈ g.dependencies p, before.contains d = true ∨ (∃ q ∈ front, (q == d) = true) ∨ g.Reaches d p

theorem orderedAfter_empty {ps : List Path} : g.OrderedAfter .empty ps ↔ g.Ordered ps := by
  simp [OrderedAfter, Ordered]

private theorem orderedAfter_nil (before : PathSet) : g.OrderedAfter before [] := by
  intro front p rest e
  simp at e

theorem ordered_nil : g.Ordered [] := orderedAfter_empty.1 (orderedAfter_nil _)

/-- The order of a list is that of the files in front of the last one, and the place of the last one. -/
private theorem orderedAfter_concat {before : PathSet} {ps : List Path} : g.OrderedAfter before (ps ++ [p]) ↔
    g.OrderedAfter before ps ∧
      ∀ d ∈ g.dependencies p, before.contains d = true ∨ (∃ q ∈ ps, (q == d) = true) ∨ g.Reaches d p := by
  constructor
  · intro h
    exact ⟨fun front x rest e => h front x (rest ++ [p]) (by simp [e]), h ps p [] rfl⟩
  · rintro ⟨h, hp⟩ front x rest e
    rcases List.eq_nil_or_concat rest with rfl | ⟨rest, y, rfl⟩
    · obtain ⟨rfl, rfl⟩ : ps = front ∧ p = x := by simpa using e
      exact hp
    · rw [List.concat_eq_append, ← List.cons_append, ← List.append_assoc] at e
      exact h front x rest (List.append_inj_left' e rfl)

/-- Files may follow if those they come behind stand in front of them. -/
private theorem OrderedAfter.append {before more : PathSet} {ps qs : List Path} (h : g.OrderedAfter before ps)
    (k : g.OrderedAfter more qs)
    (hm : ∀ d, more.contains d = true → before.contains d = true ∨ ∃ q ∈ ps, (q == d) = true) :
    g.OrderedAfter before (ps ++ qs) := by
  induction qs using List.reverseRecOn with
  | nil => rwa [List.append_nil]
  | append_singleton qs q ih =>
    obtain ⟨kqs, kq⟩ := orderedAfter_concat.1 k
    rw [← List.append_assoc, orderedAfter_concat]
    refine ⟨ih kqs, fun d hd => ?_⟩
    simp only [List.mem_append, or_and_right, exists_or]
    rcases kq d hd with hb | hf | hr
    · exact (hm d hb).imp_right fun k => .inl (.inl k)
    · exact .inr (.inl (.inr hf))
    · exact .inr (.inr hr)

/-- A file that leads to all others need not be in front of them. -/
private theorem OrderedAfter.of_insert {before : PathSet} {ps : List Path} (h : g.OrderedAfter (before.insert p) ps)
    (hp : ∀ q ∈ ps, g.Reaches p q) : g.OrderedAfter before ps := by
  intro front x rest e d hd
  rcases h front x rest e d hd with hb | hf
  · rcases PathSet.contains_insert.1 hb with hb | hpd
    · exact .inl hb
    · have hpx : g.Reaches p x := hp x (by simp [e])
      exact .inr (.inr (hpx.congr_left hpd))
  · exact .inr hf

/-- A set that is in order stays so when files are added in order. -/
theorem Ordered.insertAll {s : PathSet} {ps : List Path} (hs : g.Ordered s.toList) (h : g.Ordered ps) :
    g.Ordered (s.insertAll ps).toList := by
  induction ps using List.reverseRecOn with
  | nil => exact hs
  | append_singleton ps p ih =>
    obtain ⟨hps, hp⟩ := orderedAfter_concat.1 (orderedAfter_empty.2 h)
    have front := orderedAfter_empty.2 (ih (orderedAfter_empty.1 hps))
    rw [PathSet.insertAll_concat]
    by_cases hc : (s.insertAll ps).contains p = true
    · rw [PathSet.insert_of_contains hc]
      exact orderedAfter_empty.1 front
    · rw [PathSet.toList_insert hc, ← orderedAfter_empty, orderedAfter_concat]
      refine ⟨front, fun d hd => ?_⟩
      -- what stands in front of `p` in the list is in the set by now
      rcases hp d hd with he | hf | hr
      · exact .inl he
      · exact .inr (.inl (PathSet.contains_iff.1 (PathSet.contains_insertAll.2 (.inr hf))))
      · exact .inr (.inr hr)

/-! ### What visits add to a walk -/

/-- Visiting `roots` turns the walk `w` into `w'`, and `new` are the files that are listed on the way. -/
structure Adds (g : Graph) (roots : List Path) (w w' : Walk) (new : List TracedFile) : Prop where
  files : w'.files = w.files ++ new
  seen : ∀ q, w'.seen.contains q = true ↔ w.seen.contains q = true ∨ ∃ f ∈ new, (f.path == q) = true
  fresh : ∀ f ∈ new, ¬ w.seen.contains f.path = true
  distinct : new.Pairwise fun a b => ¬ (a.path == b.path) = true
  dependencies : ∀ f ∈ new, f.dependencies = g.dependencies f.path
  reached : ∀ f ∈ new, ∃ r ∈ roots, g.Reaches r f.path
  visited : ∀ r ∈ roots, w'.seen.contains r = true
  closed : ∀ f ∈ new, ∀ d ∈ f.dependencies, w'.seen.contains d = true
  ordered : g.OrderedAfter w.seen (new.map (·.path))

variable {w w₁ w₂ : Walk} {roots more : List Path} {new newer : List TracedFile}

private theorem Adds.mono (h : g.Adds roots w w₁ new) (hq : w.seen.contains q = true) : w₁.seen.contains q = true :=
  (h.seen q).2 (.inl hq)

theorem Adds.none (w : Walk) : g.Adds [] w w [] where
  files := (List.append_nil _).symm
  seen := by simp
  fresh := by simp
  distinct := .nil
  dependencies := by simp
  reached := by simp
  visited := by simp
  closed := by simp
  ordered := orderedAfter_nil _

/-- A path that has been seen adds nothing. -/
theorem Adds.again (h : w.seen.contains p = true) : g.Adds [p] w w [] :=
  { Adds.none w with
    reached := by simp
    visited := by simpa using h }

theorem Adds.append (h : g.Adds roots w w₁ new) (k : g.Adds more w₁ w₂ newer) :
    g.Adds (roots ++ more) w w₂ (new ++ newer) where
  files := by rw [k.files, h.files, List.append_assoc]
  seen q := by
    rw [k.seen, h.seen]
    simp only [List.mem_append, or_and_right, exists_or, or_assoc]
  fresh f hf := by
    rcases List.mem_append.1 hf with hf | hf
    · exact h.fresh f hf
    · exact fun hw => k.fresh f hf (h.mono hw)
  distinct := by
    rw [List.pairwise_append]
    exact ⟨h.distinct, k.distinct, fun a ha b hb e => k.fresh b hb ((h.seen _).2 (.inr ⟨a, ha, e⟩))⟩
  dependencies f hf := (List.mem_append.1 hf).elim (h.dependencies f) (k.dependencies f)
  reached f hf := by
    rcases List.mem_append.1 hf with hf | hf
    · obtain ⟨r, hr, hrf⟩ := h.reached f hf
      exact ⟨r, List.mem_append_left _ hr, hrf⟩
    · obtain ⟨r, hr, hrf⟩ := k.reached f hf
      exact ⟨r, List.mem_append_right _ hr, hrf⟩
  visited r hr := (List.mem_append.1 hr).elim (fun hr => k.mono (h.visited r hr)) (k.visited r)
  closed f hf d hd := (List.mem_append.1 hf).elim (fun hf => k.mono (h.closed f hf d hd)) (fun hf => k.closed f hf d hd)
  ordered := by
    rw [List.map_append]
    refine h.ordered.append k.ordered fun d hd => ?_
    simpa only [List.mem_map, exists_exists_and_eq_and] using (h.seen d).1 hd

/-- A path is marked when it is entered and listed when all it depends on has been visited. -/
theorem Adds.leave (hp : ¬ w.seen.contains p = true)
    (h : g.Adds (g.dependencies p) { w with seen := w.seen.insert p } w₁ new) :
    g.Adds [p] w { w₁ with files := w₁.files ++ [⟨p, g.dependencies p⟩] } (new ++ [⟨p, g.dependencies p⟩]) where
  files := by rw [h.files, List.append_assoc]
  seen q := by
    show w₁.seen.contains q = true ↔ _
    rw [h.seen, PathSet.contains_insert]
    simp only [List.mem_append, List.mem_singleton, or_and_right, exists_or, exists_eq_left, or_assoc]
    rw [or_comm (a := (p == q) = true)]
  fresh f hf := by
    rcases List.mem_append.1 hf with hf | hf
    · exact fun hw => h.fresh f hf (PathSet.contains_insert.2 (.inl hw))
    · rw [List.mem_singleton.1 hf]
      exact hp
  distinct := by
    rw [List.pairwise_append]
    refine ⟨h.distinct, List.pairwise_singleton _ _, fun a ha b hb e => h.fresh a ha ?_⟩
    rw [List.mem_singleton.1 hb] at e
    exact PathSet.contains_insert.2 (.inr (BEq.symm e))
  dependencies f hf := by
    rcases List.mem_append.1 hf with hf | hf
    · exact h.dependencies f hf
    · rw [List.mem_singleton.1 hf]
  reached f hf := by
    refine ⟨p, List.mem_singleton.2 rfl, ?_⟩
    rcases List.mem_append.1 hf with hf | hf
    · obtain ⟨d, hd, hdf⟩ := h.reached f hf
      exact .step hd hdf
    · rw [List.mem_singleton.1 hf]
      exact .here BEq.rfl
  visited r hr := by
    rw [List.mem_singleton.1 hr]
    exact h.mono (PathSet.contains_insert.2 (.inr BEq.rfl))
  closed f hf d hd := by
    rcases List.mem_append.1 hf with hf | hf
    · exact h.closed f hf d hd
    · rw [List.mem_singleton.1 hf] at hd
      exact h.visited d hd
  ordered := by
    rw [List.map_append, List.map_cons, List.map_nil, orderedAfter_concat]
    constructor
    · refine h.ordered.of_insert fun q hq => ?_
      obtain ⟨f, hf, rfl⟩ := List.mem_map.1 hq
      obtain ⟨d, hd, hdf⟩ := h.reached f hf
      exact .step hd hdf
    · intro d hd
      rcases (h.seen d).1 (h.visited d hd) with hb | ⟨f, hf, e⟩
      · rcases PathSet.contains_insert.1 hb with hb | hpd
        · exact .inl hb
        · exact .inr (.inr (.here (BEq.symm hpd)))
      · exact .inr (.inl ⟨f.path, List.mem_map_of_mem hf, e⟩)

/-! ### The depth of a walk -/

/-- The number of rows whose paths have not been seen. -/
def unseen (g : Graph) (w : Walk) : Nat := g.rows.countP fun row => !w.seen.steps.contains row.1

private theorem unseen_mono (h : ∀ q, w.seen.contains q = true → w₁.seen.contains q = true) :
    g.unseen w₁ ≤ g.unseen w := by
  apply List.countP_mono_left
  intro row _ hrow
  simp only [Bool.not_eq_true', ← Bool.not_eq_true, PathSet.contains_steps] at hrow ⊢
  rintro ⟨q, hq, e⟩
  exact hrow ⟨q, h q hq, e⟩

theorem countP_lt_countP {α : Type} {P Q : α → Bool} {l : List α} (h : ∀ x ∈ l, P x = true → Q x = true)
    {x : α} (hx : x ∈ l) (hQ : Q x = true) (hP : ¬ P x = true) : l.countP P < l.countP Q := by
  obtain ⟨l₁, l₂, rfl⟩ := List.append_of_mem hx
  have h₁ : l₁.countP P ≤ l₁.countP Q := List.countP_mono_left fun y hy => h y (List.mem_append_left _ hy)
  have h₂ : l₂.countP P ≤ l₂.countP Q :=
    List.countP_mono_left fun y hy => h y (List.mem_append_right _ (List.mem_cons_of_mem _ hy))
  rw [List.countP_append, List.countP_append, List.countP_cons_of_pos hQ, List.countP_cons_of_neg hP]
  omega

private theorem exists_row (h : g.dependencies p ≠ []) : ∃ row ∈ g.rows, row.1 = p.components := by
  have hs : (g.rows.lookup p.components).isSome = true := by
    rw [Option.isSome_iff_ne_none]
    intro e
    exact h (by simp [dependencies, PathTable.get?, e])
  obtain ⟨row, hrow, e⟩ := List.lookup_isSome_iff.1 hs
  exact ⟨row, hrow, (beq_iff_eq.1 e).symm⟩

/-- To enter a path with dependencies uses up a row. -/
private theorem unseen_insert_lt (hp : ¬ w.seen.contains p = true) (hd : g.dependencies p ≠ []) :
    g.unseen { w with seen := w.seen.insert p } < g.unseen w := by
  obtain ⟨row, hrow, e⟩ := exists_row hd
  refine countP_lt_countP (fun r _ hr => ?_) hrow ?_ ?_
  · simp only [Bool.not_eq_true', ← Bool.not_eq_true, PathSet.contains_steps] at hr ⊢
    rintro ⟨q, hq, e⟩
    exact hr ⟨q, PathSet.contains_insert.2 (.inl hq), e⟩
  · rw [e]
    simpa [PathSet.contains] using hp
  · rw [e]
    have : (w.seen.insert p).contains p = true := PathSet.contains_insert.2 (.inr BEq.rfl)
    simpa [PathSet.contains] using this

/-! ### Visits -/

/-- Visits one after the other, if each of them adds what it should. -/
private theorem foldl_visit_adds {fuel : Nat}
    (visit_adds : ∀ (w : Walk) (p : Path), g.unseen w < fuel → ∃ new, g.Adds [p] w (g.visit fuel w p) new)
    (ds : List Path) (w : Walk) (hw : g.unseen w < fuel) : ∃ new, g.Adds ds w (ds.foldl (g.visit fuel) w) new := by
  induction ds generalizing w with
  | nil => exact ⟨[], .none w⟩
  | cons d ds ih =>
    obtain ⟨new, h⟩ := visit_adds w d hw
    obtain ⟨newer, k⟩ := ih (g.visit fuel w d) (Nat.lt_of_le_of_lt (unseen_mono fun q => h.mono) hw)
    exact ⟨new ++ newer, h.append k⟩

/-- A visit that may go as deep as there are rows left adds all it should. -/
theorem visit_adds (fuel : Nat) (w : Walk) (p : Path) (hw : g.unseen w < fuel) :
    ∃ new, g.Adds [p] w (g.visit fuel w p) new := by
  induction fuel generalizing w p with
  | zero => omega
  | succ fuel ih =>
    unfold visit
    split
    · rename_i hp
      exact ⟨[], .again hp⟩
    · -- a path without dependencies uses up no row, but then there is nothing more to visit
      rename_i hp
      by_cases hd : g.dependencies p = []
      · have h : g.Adds (g.dependencies p) { w with seen := w.seen.insert p }
            ((g.dependencies p).foldl (g.visit fuel) { w with seen := w.seen.insert p }) [] := by
          rw [hd]
          exact .none _
        exact ⟨_, h.leave hp⟩
      · have hlt := unseen_insert_lt hp hd
        obtain ⟨new, h⟩ := foldl_visit_adds ih (g.dependencies p) { w with seen := w.seen.insert p } (by omega)
        exact ⟨_, h.leave hp⟩

/-- Visits one after the other that may go deeper, if each of them adds nothing for that. -/
private theorem foldl_visit_of_le {fuel n : Nat}
    (visit_eq : ∀ (w : Walk) (p : Path), g.unseen w < fuel → g.visit n w p = g.visit fuel w p)
    (ds : List Path) (w : Walk) (hw : g.unseen w < fuel) : ds.foldl (g.visit n) w = ds.foldl (g.visit fuel) w := by
  induction ds generalizing w with
  | nil => rfl
  | cons d ds ih =>
    obtain ⟨new, h⟩ := visit_adds fuel w d hw
    rw [List.foldl_cons, List.foldl_cons, visit_eq w d hw]
    exact ih _ (Nat.lt_of_le_of_lt (unseen_mono fun q => h.mono) hw)

/-- To be allowed to go deeper than there are rows left changes nothing. -/
theorem visit_of_le {fuel n : Nat} (w : Walk) (p : Path) (hw : g.unseen w < fuel) (hn : fuel ≤ n) :
    g.visit n w p = g.visit fuel w p := by
  induction fuel generalizing n w p with
  | zero => omega
  | succ fuel ih =>
    obtain ⟨n, rfl⟩ : ∃ k, n = k + 1 := ⟨n - 1, by omega⟩
    unfold visit
    split
    · rfl
    · rename_i hp
      by_cases hd : g.dependencies p = []
      · rw [hd]
        rfl
      · have hlt := unseen_insert_lt hp hd
        have visit_eq : ∀ (w : Walk) (p : Path), g.unseen w < fuel → g.visit n w p = g.visit fuel w p :=
          fun w p hw => ih w p hw (Nat.le_of_succ_le_succ hn)
        simp only [foldl_visit_of_le visit_eq (g.dependencies p) { w with seen := w.seen.insert p } (by omega)]

theorem walk_eq {n : Nat} (hn : g.rows.length < n) (p : Path) : g.walk p = (g.visit n {} p).files := by
  rw [walk, visit_of_le {} p (Nat.lt_succ_of_le List.countP_le_length) hn]

/-! ### Dependencies that repeat -/

theorem visit_of_seen (n : Nat) (h : w.seen.contains p = true) : g.visit n w p = w := by
  cases n with
  | zero => rfl
  | succ n => rw [visit, if_pos h]

private theorem foldl_visit_mono {n : Nat}
    (visit_mono : ∀ (w : Walk) (p : Path), w.seen.contains q = true → (g.visit n w p).seen.contains q = true)
    (ds : List Path) (w : Walk) (hq : w.seen.contains q = true) : (ds.foldl (g.visit n) w).seen.contains q = true := by
  induction ds generalizing w with
  | nil => exact hq
  | cons d ds ih => exact ih _ (visit_mono w d hq)

/-- However deep a visit may go, it takes no marks back. -/
private theorem visit_mono (n : Nat) (w : Walk) (p : Path) (hq : w.seen.contains q = true) :
    (g.visit n w p).seen.contains q = true := by
  induction n generalizing w p with
  | zero => exact hq
  | succ n ih =>
    rw [visit]
    split
    · exact hq
    · exact foldl_visit_mono ih _ _ (PathSet.contains_insert.2 (.inl hq))

private theorem visit_marks (n : Nat) (w : Walk) (p : Path) : (g.visit (n + 1) w p).seen.contains p = true := by
  rw [visit]
  split
  · assumption
  · exact foldl_visit_mono (visit_mono n) _ _ (PathSet.contains_insert.2 (.inr BEq.rfl))

private theorem foldl_visit_filter (n : Nat) (ds : List Path) (h : w.seen.contains p = true) :
    ds.foldl (g.visit n) w = (ds.filter (!· == p)).foldl (g.visit n) w := by
  induction ds generalizing w with
  | nil => rfl
  | cons d ds ih =>
    by_cases e : (d == p) = true
    · rw [List.filter_cons_of_neg (by simp [e]), List.foldl_cons, visit_of_seen n (PathSet.contains_congr e ▸ h), ih h]
    · rw [List.filter_cons_of_pos (by simp [e]), List.foldl_cons, List.foldl_cons, ih (visit_mono n w d h)]

/-- Visits of the same path again add nothing. -/
theorem foldl_visit_eraseDups (n : Nat) (ds : List Path) (w : Walk) :
    ds.foldl (g.visit n) w = ds.eraseDups.foldl (g.visit n) w := by
  match n, ds with
  | 0, ds =>
    have stays : ∀ d, g.visit 0 w d = w := fun _ => rfl
    rw [List.foldl_fixed' stays, List.foldl_fixed' stays]
  | n + 1, [] => rfl
  | n + 1, d :: ds =>
    rw [List.eraseDups_cons, List.foldl_cons, List.foldl_cons, foldl_visit_filter (n + 1) ds (visit_marks n w d)]
    exact foldl_visit_eraseDups (n + 1) (ds.filter (!· == d)) _
termination_by ds.length
decreasing_by exact Nat.lt_succ_of_le (List.length_filter_le _ _)

/-! ### What walks list -/

/-- Begun with nothing seen, a visit lists what its path leads to. -/
theorem Adds.exists_mem (h : g.Adds [p] {} w new) : (∃ f ∈ new, (f.path == q) = true) ↔ g.Reaches p q := by
  have seen_iff : ∀ q, w.seen.contains q = true ↔ ∃ f ∈ new, (f.path == q) = true := by
    intro q
    rw [h.seen]
    simp [PathSet.contains_empty]
  constructor
  · rintro ⟨f, hf, e⟩
    obtain ⟨r, hr, hrf⟩ := h.reached f hf
    rw [List.mem_singleton.1 hr] at hrf
    exact hrf.congr_right e
  · -- what has been seen is closed under dependencies, and `p` has been seen
    intro hpq
    rw [← seen_iff]
    refine hpq.mem_closed (fun x d hx hd => ?_) (h.visited p (List.mem_singleton.2 rfl))
    obtain ⟨f, hf, e⟩ := (seen_iff x).1 hx
    apply h.closed f hf
    rw [h.dependencies f hf, dependencies_congr e]
    exact hd

theorem walk_adds (g : Graph) (p : Path) :
    g.Adds [p] {} (g.visit (g.rows.length + 1) {} p) (g.walk p) := by
  have hw : g.unseen {} < g.rows.length + 1 := Nat.lt_succ_of_le List.countP_le_length
  obtain ⟨new, h⟩ := visit_adds (g.rows.length + 1) {} p hw
  have e : g.walk p = new := h.files
  rw [e]
  exact h

/-- A walk lists what its path leads to. -/
theorem exists_mem_walk : (∃ f ∈ g.walk p, (f.path == q) = true) ↔ g.Reaches p q := (walk_adds g p).exists_mem

/-- A walk lists no file twice. -/
theorem walk_distinct (g : Graph) (p : Path) : (g.walk p).Pairwise fun a b => ¬ (a.path == b.path) = true :=
  (walk_adds g p).distinct

/-- A walk lists each file behind what it depends on, unless that leads back to the file. -/
theorem walk_ordered (g : Graph) (p : Path) : g.Ordered ((g.walk p).map (·.path)) :=
  orderedAfter_empty.1 (walk_adds g p).ordered

/-- Where nothing but dependencies is set, paths are traced by walks. -/
theorem trace_eq_ok (failing : g.failing = []) (fixed : g.fixed = []) (ps : List Path) :
    g.trace ps = .ok (ps.flatMap g.walk) := by
  have traced : ∀ p, g.traceOne p = .ok (g.walk p) := fun p => by
    simp [traceOne, failing, fixed, PathTable.get?]
  have each : ps.mapM g.traceOne = .ok (ps.map g.walk) := by
    induction ps with
    | nil => rfl
    | cons p ps ih =>
      rw [List.mapM_cons, traced, ih]
      rfl
  rw [trace, each, List.flatMap]
  rfl

end ScriptBundler.Graph
