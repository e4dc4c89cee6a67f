import ScriptBundler.Proofs.Disk.Copy
import ScriptBundler.Proofs.Path.Route

/-!
# Directories that look alike

Two directories look alike along some routes if each of these leads from both to the same, apart from times
(`Disk.Alike`), and the paths to which it leads are twins (`Path.Twin`). A directory looks like a copy of it along all
routes that come to names (`SameTree.alike`).
-/

namespace ScriptBundler

open ScriptBundler.Path (IsRoute)
open Disk (IsName)

variable {d : Disk} {p q x y x' y' : Path} {T : List String → Prop} {route names : List String}

/-! ### What is asked of a path -/

namespace Disk

private theorem isDirectory_eq_sight : d.isDirectory p = match d.sight p with
    | some (.directory _) => true
    | _ => false := by
  unfold isDirectory Disk.sight
  rcases d.stat p with e | ⟨_ | _ | _⟩ <;> rfl

private theorem isNamed_eq_sight : d.isNamed p = (d.sight p ⟨false, false⟩).isSome := by
  unfold isNamed Disk.sight
  rcases d.stat p ⟨false, false⟩ with e | node <;> rfl

private theorem toOption_readText_eq : (d.readText p).toOption = (d.readBytes p).toOption.bind String.fromUTF8? := by
  unfold readText
  rcases d.readBytes p with e | bytes
  · rfl
  · simp only [bind, Except.bind]
    cases e : String.fromUTF8? bytes <;> simp [Except.toOption, e]

theorem list_of_isDirectory (h : d.isDirectory p = true) : d.list p = .ok (d.listing p) := by
  obtain ⟨location, time, located, there⟩ := exists_of_isDirectory h
  rw [Disk.listing, list_of_locate located there]
  rfl

/-! ### Looking alike -/

/-- Some routes lead from both directories to the same, apart from times and from the order of what is listed. -/
structure Alike (d : Disk) (p q : Path) (T : List String → Prop) : Prop where
  isRoute : ∀ route, T route → IsRoute route
  sight : ∀ route, T route → ∀ follow,
    d.sight (p.under route) ⟨follow, false⟩ = d.sight (q.under route) ⟨follow, false⟩
  listing : ∀ route, T route → (d.listing (p.under route)).Perm (d.listing (q.under route))

namespace Alike

theorem isDirectory (h : d.Alike p q T) (ht : T route) : d.isDirectory (p.under route) = d.isDirectory (q.under route) := by
  rw [isDirectory_eq_sight, isDirectory_eq_sight, h.sight route ht]

theorem isNamed (h : d.Alike p q T) (ht : T route) : d.isNamed (p.under route) = d.isNamed (q.under route) := by
  rw [isNamed_eq_sight, isNamed_eq_sight, h.sight route ht]

theorem isFile (h : d.Alike p q T) (ht : T route) : d.isFile (p.under route) = d.isFile (q.under route) := by
  rw [isFile_eq_sight, isFile_eq_sight, h.sight route ht]

theorem «exists» (h : d.Alike p q T) (ht : T route) : d.exists (p.under route) = d.exists (q.under route) := by
  rw [exists_eq_sight, exists_eq_sight, h.sight route ht]

theorem readText (h : d.Alike p q T) (ht : T route) :
    (d.readText (p.under route)).toOption = (d.readText (q.under route)).toOption := by
  rw [toOption_readText_eq, toOption_readText_eq, toOption_readBytes_eq_sight, toOption_readBytes_eq_sight,
    h.sight route ht]

end Alike

end Disk

/-! ### Twins -/

/-- One of the routes leads to these paths, from one directory each. -/
def Path.Twin (p q : Path) (T : List String → Prop) (x y : Path) : Prop :=
  ∃ route, T route ∧ route ≠ [] ∧ x = p.under route ∧ y = q.under route

namespace Path.Twin

theorem beq (h : d.Alike p q T) (hp : p.text ≠ "") (hq : q.text ≠ "") (hx : Twin p q T x y) (hx' : Twin p q T x' y') :
    (x == x') = (y == y') := by
  obtain ⟨route, ht, -, rfl, rfl⟩ := hx
  obtain ⟨route', ht', -, rfl, rfl⟩ := hx'
  exact (h.isRoute route ht).beq_under (h.isRoute route' ht') hp hq

theorem exists_stripPrefix? (h : d.Alike p q T) (hp : p.text ≠ "") (hq : q.text ≠ "") (hx : Twin p q T x y) :
    ∃ rest, x.stripPrefix? p = some rest ∧ y.stripPrefix? q = some rest := by
  obtain ⟨route, ht, hne, rfl, rfl⟩ := hx
  obtain ⟨rest, left⟩ := (h.isRoute route ht).exists_stripPrefix?_under hne
  exact ⟨rest, left p hp, left q hq⟩

end Path.Twin

/-! ### Copies -/

/-- Wherever it starts, the route comes to the names. -/
def Path.ComesTo (route names : List String) : Prop :=
  IsRoute route ∧ (∀ name ∈ names, IsName name) ∧ ∀ p : Path, p.text ≠ "" → p.under route = p.under names

namespace Path.ComesTo

theorem of_names (h : ∀ name ∈ names, IsName name) : ComesTo names names :=
  ⟨fun name hname => isAbsolute_of_isName (h name hname), h, fun _ _ => rfl⟩

/-- Names may be written as one text. -/
theorem joined (h : ∀ name ∈ names, IsName name) (hne : names ≠ []) :
    ComesTo [String.ofList (joinPieces (names.map String.toList))] names := by
  refine ⟨?_, h, fun p hp => (under_eq_join hp h hne).symm⟩
  rw [IsRoute, List.forall_mem_singleton]
  exact isAbsolute_of_names h

/-- A route that goes anywhere comes to a name. -/
theorem ne_nil {route : List String} (h : ComesTo route names) (hne : route ≠ []) : names ≠ [] := by
  rintro rfl
  obtain ⟨isRoute, -, comes⟩ := h
  obtain ⟨t, ht, joined⟩ := isRoute.exists_join hne
  have spelled := congrArg (List.length ∘ String.toList ∘ Path.text) ((joined ⟨"a"⟩ (by decide)).symm.trans (comes _ (by decide)))
  have longer : (⟨"a"⟩ : Path).opening.length = 2 := by decide
  simp [toList_join_of_relative (show (⟨"a"⟩ : Path).text ≠ "" by decide) ht, longer] at spelled
  omega

end Path.ComesTo

/-- A directory and a copy of it look alike along all routes that come to names. -/
theorem Disk.SameTree.alike (h : d.SameTree p q) (hp : p.text ≠ "") (hq : q.text ≠ "") :
    d.Alike p q fun route => ∃ names, Path.ComesTo route names where
  isRoute := fun _ ⟨_, isRoute, _⟩ => isRoute
  sight := by
    rintro route ⟨names, -, named, comes⟩ follow
    rw [comes p hp, comes q hq, h.sight names named]
  listing := by
    rintro route ⟨names, -, named, comes⟩
    rw [comes p hp, comes q hq]
    exact h.listing names named

end ScriptBundler
