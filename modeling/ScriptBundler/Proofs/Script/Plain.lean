import Mathlib
import ScriptBundler.Script.Grammar.Statement

/-!
# Scripts without types

In a dialect without types nothing that is read is marked as one of types.  What a rule gives is `plain` if it carries
no such mark, and a reading is `Plainly` if it gives only such values in a dialect without types.

* an expression read as the target of an assignment carries no other marks (`plain_asTarget?`);
* a rule that reads one thing after another is plain if all its readings are (`bind_plainly`), of which one that asks for
  types counts with the answer `false` alone (`usesTypes_bind`);
* the ways of putting readings together keep them plain (from `repeated_plainly` to `closedItemsWithRest_plainly`).
-/

open Std.Do

set_option mvcgen.warning false

namespace ScriptBundler.Script

/-! ### Values without marks -/

namespace Node

mutual

/-- Nothing in a tree is marked as one of types, nor would be if its members were assigned to. -/
def Plain : Node → Prop
  | .name _ | .text _ | .hole => True
  | .parens inner | .spread inner => Plain inner
  | .member parts | .lazyLoad parts | .array parts | .object parts | .shorthand parts | .group parts => AllPlain parts
  | .call callee types arguments => Plain callee ∧ AllPlain types ∧ AllPlain arguments
  | .property key value => AllPlain key ∧ Plain value
  | .assign target value => Plain target ∧ Plain value
  | .typed inner types | .applied inner types => Plain inner ∧ AllPlain types
  | .importDecl typeOnly bindings _ => typeOnly = false ∧ ∀ bs ∈ bindings, ∀ b ∈ bs, b.typeOnly = false
  | .exportAll typeOnly _ => typeOnly = false
  | .exportList typeOnly bindings _ => typeOnly = false ∧ ∀ b ∈ bindings, b.typeOnly = false

/-- Nothing in several trees is marked. -/
def AllPlain : List Node → Prop
  | [] => True
  | part :: rest => Plain part ∧ AllPlain rest

end

attribute [simp] Plain

private theorem allPlain_iff {ns : List Node} : AllPlain ns ↔ ∀ n ∈ ns, n.Plain := by
  induction ns with
  | nil => simp [AllPlain]
  | cons n ns ih => simp [AllPlain, ih]

end Node

/-- What a rule gives, which may carry marks of types. -/
class Markable (α : Type) where
  /-- No mark is in it. -/
  plain : α → Prop

export Markable (plain)

variable {α β : Type} [Markable α] [Markable β]

instance : Markable Node := ⟨Node.Plain⟩
instance : Markable Binding := ⟨fun b => b.typeOnly = false⟩
instance : Markable (List α) := ⟨fun xs => ∀ x ∈ xs, plain x⟩
instance : Markable (Option α) := ⟨fun x => ∀ y ∈ x, plain y⟩
instance : Markable (α × β) := ⟨fun p => plain p.1 ∧ plain p.2⟩
instance : Markable Bool := ⟨fun _ => True⟩
instance : Markable Unit := ⟨fun _ => True⟩
instance : Markable String := ⟨fun _ => True⟩
instance : Markable Token := ⟨fun _ => True⟩
instance : Markable Grammar.Chain := ⟨fun chain => plain chain.node⟩
instance : Markable Grammar.ArrowHead := ⟨fun head => plain head.parts⟩
instance : Markable Grammar.Heritage := ⟨fun above => plain above.parents ∧ plain above.duties⟩
instance : Markable (Grammar.Heritage → Grammar.Heritage) := ⟨fun clause => ∀ above, plain above → plain (clause above)⟩

@[simp] theorem plain_node {n : Node} : plain n ↔ n.Plain := .rfl
@[simp] theorem plain_binding {b : Binding} : plain b ↔ b.typeOnly = false := .rfl
@[simp] theorem plain_prod {p : α × β} : plain p ↔ plain p.1 ∧ plain p.2 := .rfl
@[simp] theorem plain_bool (b : Bool) : plain b := trivial
@[simp] theorem plain_unit (u : Unit) : plain u := trivial
@[simp] theorem plain_string (s : String) : plain s := trivial
@[simp] theorem plain_token (t : Token) : plain t := trivial
@[simp] theorem plain_chain {chain : Grammar.Chain} : plain chain ↔ chain.node.Plain := .rfl
@[simp] theorem plain_arrowHead {head : Grammar.ArrowHead} : plain head ↔ plain head.parts := .rfl
@[simp] theorem plain_heritage {above : Grammar.Heritage} : plain above ↔ plain above.parents ∧ plain above.duties := .rfl

@[simp] theorem plain_nil : plain ([] : List α) := nofun
@[simp] theorem plain_cons {x : α} {xs : List α} : plain (x :: xs) ↔ plain x ∧ plain xs := List.forall_mem_cons
@[simp] theorem plain_append {xs ys : List α} : plain (xs ++ ys) ↔ plain xs ∧ plain ys := List.forall_mem_append
@[simp] theorem plain_none : plain (none : Option α) := nofun
@[simp] theorem plain_some {x : α} : plain (some x) ↔ plain x := by simp [plain]
@[simp] theorem plain_toList {x : Option α} : plain x.toList ↔ plain x := by cases x <;> simp
@[simp] theorem plain_strings (xs : List String) : plain xs := fun _ _ => trivial
@[simp] theorem plain_word (x : Option String) : plain x := fun _ _ => trivial
@[simp] theorem allPlain_eq {ns : List Node} : Node.AllPlain ns ↔ plain ns := Node.allPlain_iff
@[simp] theorem plain_leaf : Node.leaf.Plain := trivial

private theorem plain_map {f : α → β} (hf : ∀ a, plain a → plain (f a)) {x : Option α} (h : plain x) :
    plain (x.map f) := by
  cases x <;> simp_all

private theorem plain_filterMap {xs : List (Option α)} (h : plain xs) : plain (xs.filterMap fun x => x) := by
  intro x hx
  obtain ⟨y, hy, rfl⟩ := List.mem_filterMap.1 hx
  exact h _ hy x rfl

theorem plain_flatten {xs : List (List α)} (h : plain xs) : plain xs.flatten := by
  intro x hx
  obtain ⟨ys, hys, hx⟩ := List.mem_flatten.1 hx
  exact h ys hys x hx

theorem plain_getD {x : Option α} {y : α} (h : plain x) (k : plain y) : plain (x.getD y) := by
  cases x with
  | none => exact k
  | some a => exact h a rfl

theorem plain_head? {xs : List α} (h : plain xs) : plain xs.head? := fun x hx => h x (List.mem_of_head? hx)

theorem plain_foldl {clauses : List (Grammar.Heritage → Grammar.Heritage)} (h : plain clauses) :
    plain (clauses.foldl (fun above clause => clause above) {}) := by
  have from_ : ∀ above : Grammar.Heritage, plain above → plain (clauses.foldl (fun above clause => clause above) above) := by
    induction clauses with
    | nil => exact fun _ k => k
    | cons clause clauses ih =>
      intro above k
      rw [plain_cons] at h
      exact ih h.2 _ (h.1 above k)
  exact from_ {} ⟨plain_nil, plain_nil⟩

/-! ### Targets of assignments -/

namespace Node

mutual

theorem plain_asTarget? (n : Node) (h : plain n) : plain n.asTarget? := by
  cases n with
  | array items =>
    rw [asTarget?]
    exact plain_map (fun _ k => by simpa using k) (plain_itemTargets? items (by simpa using h))
  | object items =>
    rw [asTarget?]
    exact plain_map (fun _ k => by simpa using k) (plain_memberTargets? items (by simpa using h))
  | parens inner =>
    rw [asTarget?]
    split <;> simp_all
  | _ => simp_all [asTarget?]

private theorem plain_fallbackTarget? (n : Node) (h : plain n) : plain n.fallbackTarget? := by
  cases n with
  | assign target value =>
    rw [plain_node, Plain] at h
    rw [fallbackTarget?]
    exact plain_map (fun _ k => by simpa using ⟨k, h.2⟩) (plain_asTarget? target h.1)
  | array items =>
    rw [fallbackTarget?]
    exact plain_map (fun _ k => by simpa using k) (plain_itemTargets? items (by simpa using h))
  | object items =>
    rw [fallbackTarget?]
    exact plain_map (fun _ k => by simpa using k) (plain_memberTargets? items (by simpa using h))
  | parens inner =>
    rw [fallbackTarget?]
    split <;> simp_all
  | _ => simp_all [fallbackTarget?]

private theorem plain_itemTargets? (ns : List Node) (h : plain ns) : plain (itemTargets? ns) := by
  unfold itemTargets?
  split
  · exact plain_some.2 plain_nil
  · rename_i inner
    exact plain_map (fun _ k => by simpa using k) (plain_asTarget? inner (by simpa using h))
  · rename_i rest
    exact plain_map (fun _ k => by simpa using k) (plain_itemTargets? rest (by simpa using h))
  · rename_i item rest _ _
    rw [plain_cons] at h
    have first := plain_fallbackTarget? item h.1
    have others := plain_itemTargets? rest h.2
    split <;> simp_all

private theorem plain_memberTargets? (ns : List Node) (h : plain ns) : plain (memberTargets? ns) := by
  unfold memberTargets?
  split
  · exact plain_some.2 plain_nil
  · rename_i inner
    exact plain_map (fun _ k => by simpa using k) (plain_asTarget? inner (by simpa using h))
  · -- the fallback comes into force: a tree that is plain carries no marks in it either
    rename_i fallback rest
    simp only [plain_cons, plain_node, Plain, allPlain_eq] at h
    exact plain_map (fun _ k => by simpa using ⟨h.1, k⟩) (plain_memberTargets? rest h.2)
  · rename_i key value rest
    rw [plain_cons, plain_node, Plain] at h
    have first := plain_fallbackTarget? value h.1.2
    have others := plain_memberTargets? rest h.2
    split <;> simp_all
  · exact plain_none

end

theorem Plain.of_asTarget? {n target : Node} (e : n.asTarget? = some target) (h : n.Plain) : target.Plain :=
  plain_asTarget? n h target e

end Node

/-! ### Readings without marks -/

namespace Grammar

/-- In a dialect without types, what is read carries no marks. -/
abbrev Plainly (r : Reading α) : Prop :=
  ⦃fun (c : Context) (_ : Cursor) => ⌜c.dialect.types = false⌝⦄ r ⦃⇓? a => fun c _ => ⌜c.dialect.types = false ∧ plain a⌝⦄

/-- What holds of all that a reading gives. -/
private theorem wp_reading {α : Type} (r : Reading α) (Q : α → Context → Cursor → Prop) (c : Context) (here : Cursor) :
    (wp⟦r⟧ (⇓? a => fun c there => ⌜Q a c there⌝) c here).down ↔ ∀ a there, r c here = some (a, there) → Q a c there := by
  change (wp⟦(r c here : Option (α × Cursor))⟧ (⇓? a => ⌜Q a.1 c a.2⌝)).down ↔ _
  rcases r c here with _ | ⟨a, there⟩
  · exact iff_of_true trivial (by simp)
  · have value : (wp⟦(some (a, there) : Option (α × Cursor))⟧ (⇓? a => ⌜Q a.1 c a.2⌝)).down = Q a c there := rfl
    rw [value]
    simp

theorem plainly_iff {r : Reading α} :
    Plainly r ↔ ∀ c here a there, c.dialect.types = false → r c here = some (a, there) → plain a := by
  have wp c here := wp_reading r (fun a c there => c.dialect.types = false ∧ plain a) c here
  constructor
  · intro h c here a there untyped e
    exact ((wp c here).1 (h c here untyped) a there e).2
  · intro h c here untyped
    exact (wp c here).2 fun a there e => ⟨untyped, h c here a there untyped e⟩

/-! A rule reads one thing after another: it is gone through with a lemma for each reading and one for what it gives. -/

omit [Markable α] [Markable β] in
private theorem bind_eq_some {r : Reading α} {f : α → Reading β} {c : Context} {here there : Cursor} {b : β} :
    (r >>= f) c here = some (b, there) ↔ ∃ a between, r c here = some (a, between) ∧ f a c between = some (b, there) := by
  change Option.bind (r c here) (fun p => f p.1 c p.2) = _ ↔ _
  rw [Option.bind_eq_some_iff]
  exact ⟨fun ⟨⟨a, between⟩, read, rest⟩ => ⟨a, between, read, rest⟩,
    fun ⟨a, between, read, rest⟩ => ⟨(a, between), read, rest⟩⟩

theorem pure_plainly {a : α} (h : plain a) : Plainly (pure a : Reading α) := by
  refine plainly_iff.2 fun c here b there _ e => ?_
  cases e
  exact h

theorem bind_plainly {r : Reading α} {f : α → Reading β} (h : Plainly r) (k : ∀ a, plain a → Plainly (f a)) :
    Plainly (r >>= f) := by
  refine plainly_iff.2 fun c here b there untyped e => ?_
  obtain ⟨a, between, read, rest⟩ := bind_eq_some.1 e
  exact plainly_iff.1 (k a (plainly_iff.1 h c here a between untyped read)) c between b there untyped rest

/-- What is read first need not be known to be plain where all that may follow is. -/
theorem any_bind {γ : Type} {r : Reading γ} {f : γ → Reading β} (k : ∀ a, Plainly (f a)) : Plainly (r >>= f) := by
  refine plainly_iff.2 fun c here b there untyped e => ?_
  obtain ⟨a, between, -, rest⟩ := bind_eq_some.1 e
  exact plainly_iff.1 (k a) c between b there untyped rest

/-- Behind a question that is answered with no wherever there are no types, only what follows on a no matters. -/
theorem false_bind {r : Reading Bool} (h : ∀ c here, c.dialect.types = false → r c here = some (false, here))
    {f : Bool → Reading β} (k : Plainly (f false)) : Plainly (r >>= f) := by
  refine plainly_iff.2 fun c here b there untyped e => ?_
  obtain ⟨a, between, read, rest⟩ := bind_eq_some.1 e
  cases (h c here untyped).symm.trans read
  exact plainly_iff.1 k c here b there untyped rest

/-- The rules that mark something ask this first. -/
theorem usesTypes_bind {f : Bool → Reading β} (k : Plainly (f false)) : Plainly (usesTypes >>= f) :=
  false_bind (fun _ here untyped => congrArg (fun types => some (types, here)) untyped) k

/-- The rules that mark something ask this first. -/
@[spec 20000] theorem usesTypes_plainly :
    ⦃fun (c : Context) (_ : Cursor) => ⌜c.dialect.types = false⌝⦄ usesTypes
    ⦃⇓? a => fun c _ => ⌜c.dialect.types = false ∧ a = false⌝⦄ := by
  mvcgen [usesTypes]

/-- What can carry no mark is plain whatever is read. -/
private theorem plainly_of_forall (h : ∀ a : α, plain a) (r : Reading α) : Plainly r :=
  plainly_iff.2 fun _ _ a _ _ _ => h a

@[spec high] theorem unit_plainly (r : Reading Unit) : Plainly r := plainly_of_forall plain_unit r
@[spec high] theorem bool_plainly (r : Reading Bool) : Plainly r := plainly_of_forall plain_bool r
@[spec high] theorem string_plainly (r : Reading String) : Plainly r := plainly_of_forall plain_string r
@[spec high] theorem token_plainly (r : Reading Token) : Plainly r := plainly_of_forall plain_token r
@[spec high] theorem strings_plainly (r : Reading (List String)) : Plainly r := plainly_of_forall plain_strings r

@[spec] theorem fail_plainly : Plainly (fail : Reading α) :=
  plainly_iff.2 fun _ _ _ _ _ e => absurd e.symm (Option.some_ne_none _)

/-- A rule may refuse something before it goes on. -/
theorem failIf_plainly (test : Bool) {rest : Unit → Reading α} (k : ∀ u, Plainly (rest u)) :
    Plainly (if test then fail >>= rest else rest ()) := by
  split
  · exact any_bind k
  · exact k ()

section
variable {r : Reading α} (h : Plainly r)
include h

@[spec] theorem attempt_plainly : Plainly (attempt r) := by
  refine plainly_iff.2 fun c here x there untyped e => ?_
  unfold attempt at e
  split at e
  · rename_i a there' read
    cases e
    exact plain_some.2 (plainly_iff.1 h c here a _ untyped read)
  · cases e
    exact plain_none

@[spec] theorem under_plainly (change : Context → Context) (same : ∀ c, (change c).dialect = c.dialect) :
    Plainly (under change r) :=
  plainly_iff.2 fun c here a there untyped e => plainly_iff.1 h (change c) here a there ((same c).symm ▸ untyped) e

@[spec] theorem inBrackets_plainly : Plainly (inBrackets r) := under_plainly h _ fun _ => rfl

@[spec] theorem inTypeBrackets_plainly : Plainly (inTypeBrackets r) := under_plainly h _ fun _ => rfl

theorem underExtends_plainly : Plainly (underExtends r) := under_plainly h _ fun _ => rfl

@[spec] theorem inFunction_plainly (isAsync isGenerator : Bool) : Plainly (inFunction isAsync isGenerator r) :=
  under_plainly h _ fun _ => rfl

end

@[spec] theorem repeated_plainly {r : Reading (Option α)} (h : Plainly r) : Plainly (repeated r) := by
  have go n : Plainly (repeated.go r n) := by
    induction n with
    | zero => exact fail_plainly
    | succ n ih =>
      rw [repeated.go]
      refine bind_plainly h fun found found_plain => ?_
      cases found with
      | none => exact pure_plainly plain_nil
      | some a =>
        exact bind_plainly ih fun more more_plain => pure_plainly (plain_cons.2 ⟨plain_some.1 found_plain, more_plain⟩)
  exact plainly_iff.2 fun c here => plainly_iff.1 (go c.size) c here

@[spec] theorem iterated_plainly {r : α → Reading (Option α)} (h : ∀ a, plain a → Plainly (r a)) (a : α) (ha : plain a) :
    Plainly (iterated r a) := by
  have go n : ∀ a, plain a → Plainly (iterated.go r n a) := by
    induction n with
    | zero => exact fun _ _ => fail_plainly
    | succ n ih =>
      intro a ha
      rw [iterated.go]
      refine bind_plainly (h a ha) fun found found_plain => ?_
      cases found with
      | none => exact pure_plainly ha
      | some b => exact ih b (plain_some.1 found_plain)
  exact plainly_iff.2 fun c here => plainly_iff.1 (go c.size a ha) c here

section
variable {r : Reading α} (h : Plainly r) (test : Bool)
include h

/-- One more of what is repeated, if `test` asks for it. -/
theorem someIf_plainly : Plainly (if test then return some (← r) else return none : Reading (Option α)) := by
  split
  · exact bind_plainly h fun item item_plain => pure_plainly (plain_some.2 item_plain)
  · exact pure_plainly plain_none

/-- One more of what is repeated, unless `test` ends it. -/
theorem someUnless_plainly : Plainly (if test then return none else return some (← r) : Reading (Option α)) := by
  split
  · exact pure_plainly plain_none
  · exact bind_plainly h fun item item_plain => pure_plainly (plain_some.2 item_plain)

/-- What may be missing, if `test` tells that it is. -/
theorem listUnless_plainly : Plainly (if test then return [] else return [← r] : Reading (List α)) := by
  split
  · exact pure_plainly plain_nil
  · exact bind_plainly h fun item item_plain => pure_plainly (plain_cons.2 ⟨item_plain, plain_nil⟩)

end

section
variable {r rest : Reading α} (close : String) (h : Plainly r) (k : Plainly rest)
include h

theorem separated_plainly : Plainly (separated r) := by
  unfold separated
  refine bind_plainly h fun first first_plain => ?_
  exact bind_plainly (repeated_plainly (any_bind (someIf_plainly h))) fun more more_plain =>
    pure_plainly (plain_cons.2 ⟨first_plain, more_plain⟩)

theorem itemsUpTo_plainly : Plainly (itemsUpTo close r) := by
  unfold itemsUpTo
  refine any_bind fun closed => any_bind fun ended => ?_
  split
  · exact pure_plainly ⟨plain_nil, trivial⟩
  · refine bind_plainly h fun first first_plain => bind_plainly (repeated_plainly ?_) fun more more_plain =>
      pure_plainly ⟨plain_cons.2 ⟨first_plain, plain_filterMap more_plain⟩, trivial⟩
    refine any_bind fun closed => any_bind fun ended => ?_
    split
    · exact pure_plainly plain_none
    · refine any_bind fun _ => any_bind fun comma => ?_
      split
      · exact pure_plainly (plain_some.2 plain_none)
      · exact bind_plainly h fun item item_plain => pure_plainly (plain_some.2 (plain_some.2 item_plain))

@[spec] theorem closedItems_plainly : Plainly (closedItems close r) := by
  unfold closedItems
  exact bind_plainly (itemsUpTo_plainly close h) fun items items_plain => any_bind fun _ => pure_plainly items_plain

include k in
theorem closedItemsWithRest_plainly : Plainly (closedItemsWithRest close r rest) := by
  unfold closedItemsWithRest
  refine bind_plainly (repeated_plainly ?_) fun items items_plain => any_bind fun _ => pure_plainly items_plain
  refine any_bind fun closed => any_bind fun ended => ?_
  split
  · exact pure_plainly plain_none
  · refine any_bind fun gathers => ?_
    split
    · refine bind_plainly k fun gathered gathered_plain => any_bind fun _ => any_bind fun closed => ?_
      split
      · exact pure_plainly (plain_some.2 gathered_plain)
      · exact fail_plainly
    · refine bind_plainly h fun item item_plain => any_bind fun closed => ?_
      split
      · exact pure_plainly (plain_some.2 item_plain)
      · exact any_bind fun _ => pure_plainly (plain_some.2 item_plain)

end

@[spec high] theorem optional_plainly (test : Reading Bool) {r : Reading α} (h : Plainly r) :
    Plainly (do if ← test then return [← r] else return [] : Reading (List α)) := by
  mvcgen [h] <;> simp_all

end Grammar

end ScriptBundler.Script
