import Mathlib.Data.String.Basic
import ScriptBundler.Json.Reader

/-!
# The order of members

Whatever value is read from a text, the members of each object in it stand in the order of their names, each name once
(`parse_ordered`). A member that is read again takes the place of the one of its name (`ascending_insertMember`).
-/

namespace ScriptBundler.Json

variable {α β : Type} {name : String} {v : α} {ms : List (String × α)}

/-- The members stand in the order of their names, each name once. -/
def Ascending (ms : List (String × α)) : Prop := ms.Pairwise fun a b => a.1 < b.1

private theorem mem_of_mem_insertMember {a : String × α} (h : a ∈ insertMember name v ms) : a = (name, v) ∨ a ∈ ms := by
  induction ms with
  | nil => exact .inl (List.mem_singleton.1 h)
  | cons m ms ih =>
    rw [insertMember] at h
    split at h
    · exact (List.mem_cons.1 h).imp_right (List.mem_cons_of_mem m)
    · split at h
      · exact List.mem_cons.1 h
      · rcases List.mem_cons.1 h with rfl | h
        · exact .inr List.mem_cons_self
        · exact (ih h).imp_right (List.mem_cons_of_mem m)

theorem ascending_insertMember (h : Ascending ms) : Ascending (insertMember name v ms) := by
  induction ms with
  | nil => exact List.pairwise_singleton _ _
  | cons m ms ih =>
    obtain ⟨behind, rest⟩ := List.pairwise_cons.1 h
    rw [insertMember]
    split
    · rename_i same
      exact List.pairwise_cons.2 ⟨fun a ha => same ▸ behind a ha, rest⟩
    · rename_i apart
      split
      · rename_i lt
        refine List.pairwise_cons.2 ⟨fun a ha => ?_, h⟩
        rcases List.mem_cons.1 ha with rfl | ha
        · exact lt
        · exact lt.trans (behind a ha)
      · rename_i later
        refine List.pairwise_cons.2 ⟨fun a ha => ?_, ih rest⟩
        rcases mem_of_mem_insertMember ha with rfl | ha
        · exact lt_of_le_of_ne (not_lt.1 later) (Ne.symm apart)
        · exact behind a ha

/-- In each object the members stand in the order of their names. -/
inductive Value.Ordered : Value → Prop
  | null : Ordered .null
  | bool (b : Bool) : Ordered (.bool b)
  | number (n : Number) : Ordered (.number n)
  | string (s : String) : Ordered (.string s)
  | array (vs : List Value) (items : ∀ v ∈ vs, Ordered v) : Ordered (.array vs)
  | object (ms : List (String × Value)) (ascending : Ascending ms) (values : ∀ m ∈ ms, Ordered m.2) : Ordered (.object ms)

namespace Value.Ordered

theorem ascending {ms : List (String × Value)} : Ordered (.object ms) → Ascending ms
  | .object _ ascending _ => ascending

theorem get? {v w : Value} (h : v.Ordered) (found : v.get? name = some w) : w.Ordered := by
  cases h with
  | object ms ascending values =>
    obtain ⟨front, back, e, -⟩ := List.lookup_eq_some_iff.1 (found : ms.lookup name = some w)
    exact values (name, w) (by simp [e])
  | _ => cases found

end Value.Ordered

namespace Reading

/-- What is read has a property. -/
def Gives (r : Reading α) (P : α → Prop) : Prop := ∀ bytes x rest, r bytes = .ok (x, rest) → P x

namespace Gives

variable {P : α → Prop} {Q : β → Prop} {r : Reading β} {f : β → Reading α}

private theorem pure {x : α} (h : P x) : Gives (pure x) P := by
  intro bytes y rest e
  cases e
  exact h

private theorem fail (fault : Fault) : Gives (fail fault) P := fun _ _ _ e => nomatch e

private theorem bind (h : r.Gives Q) (k : ∀ x, Q x → (f x).Gives P) : (r >>= f).Gives P := by
  intro bytes y rest e
  have e : Except.bind (r bytes) (fun a => f a.1 a.2) = .ok (y, rest) := e
  cases hr : r bytes with
  | error fault =>
    rw [hr] at e
    cases e
  | ok a =>
    rw [hr] at e
    exact k a.1 (h bytes a.1 a.2 hr) a.2 y rest e

/-- What is read in front does not matter. -/
private theorem after (k : ∀ x, (f x).Gives P) : (r >>= f).Gives P :=
  bind (Q := fun _ => True) (fun _ _ _ _ => trivial) fun x _ => k x

private theorem items {item : Reading α} (h : item.Gives P) (n : Nat) (first : Bool) :
    (items item n first).Gives fun xs => ∀ x ∈ xs, P x := by
  induction n generalizing first with
  | zero => exact fail _
  | succ n ih =>
    have next : (do let x ← item; return x :: (← Reading.items item n false)).Gives fun xs => ∀ x ∈ xs, P x :=
      h.bind fun x hx => (ih false).bind fun xs hxs => pure (List.forall_mem_cons.2 ⟨hx, hxs⟩)
    rw [Reading.items]
    refine after fun b => ?_
    -- the list ends, or an item follows, whatever stands in front of it
    repeat' first | exact next | exact pure nofun | exact fail _ | refine after fun _ => ?_ | split

private theorem foldMembers {κ σ : Type} {P : σ → Prop} {name : Reading κ} {step : σ → κ → Reading σ}
    (h : ∀ s k, P s → (step s k).Gives P) (n : Nat) (first : Bool) (s : σ) (start : P s) :
    (foldMembers name step n first s).Gives P := by
  induction n generalizing first s with
  | zero => exact fail _
  | succ n ih =>
    have next (k : κ) : (step s k >>= Reading.foldMembers name step n false).Gives P :=
      (h s k start).bind fun s hs => ih false s hs
    rw [Reading.foldMembers]
    refine after fun b => ?_
    repeat' first | exact next _ | exact pure start | exact fail _ | refine after fun _ => ?_ | split

/-- The members of an object, one after the other. -/
private theorem members {r : Reading Value} (h : r.Gives Value.Ordered) (n : Nat) :
    (Reading.foldMembers stringRest (fun ms k => return insertMember k (← r) ms) n true []).Gives
      fun ms => Ascending ms ∧ ∀ m ∈ ms, m.2.Ordered := by
  refine foldMembers (fun ms k hms => h.bind fun v hv => pure ⟨ascending_insertMember hms.1, fun m hm => ?_⟩) n true []
    ⟨.nil, nofun⟩
  rcases mem_of_mem_insertMember hm with rfl | hm
  · exact hv
  · exact hms.2 m hm

private theorem valueWith {nested : Option (Reading Value)} (h : ∀ r ∈ nested, r.Gives Value.Ordered) :
    (valueWith nested).Gives Value.Ordered := by
  rw [Reading.valueWith]
  refine after fun b => ?_
  split
  · exact fail _
  split_ifs
  · exact after fun _ => after fun _ => pure .null
  · exact after fun _ => after fun _ => pure (.bool true)
  · exact after fun _ => after fun _ => pure (.bool false)
  · exact after fun _ => after fun n => pure (.number n)
  · exact after fun n => pure (.number n)
  · exact after fun _ => after fun s => pure (.string s)
  -- what starts otherwise is a list or an object, whose parts are read by `nested`, or no value at all
  all_goals obtain _ | r := nested
  any_goals exact fail _
  · exact after fun _ => after fun n => ((h r rfl).items n true).bind fun vs hvs => pure (.array vs hvs)
  · exact after fun _ => after fun n => (members (h r rfl) n).bind fun ms hms => pure (.object ms hms.1 hms.2)

private theorem value (n : Nat) : (value n).Gives Value.Ordered := by
  induction n with
  | zero => exact valueWith nofun
  | succ n ih => exact valueWith fun r hr => Option.some.inj hr ▸ ih

end Gives

end Reading

theorem parse_ordered {text : String} {value : Value} (h : parse text = .ok value) : value.Ordered := by
  simp only [parse, Reading.readAll] at h
  split at h
  · cases h
  · rename_i read
    split at h
    · cases h
      exact Reading.Gives.value maxDepth _ _ _ read
    · cases h

end ScriptBundler.Json
