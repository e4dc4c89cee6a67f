import Mathlib.Data.List.Induction
import ScriptBundler.Project.Alias
import ScriptBundler.Proofs.Json.Ordered
import ScriptBundler.Proofs.Trace.Resolve

/-!
# What remains of the aliases a file declares

A table has the targets that were set last for an alias (`AliasTable.lookup_update`). The aliases of a file are set in
the order of their names as they are written, and without the stars at the end two names may come to the same text. Of
these the last one remains, with all its targets (`lookup_aliasesIn_iff`). So no alias is lost, but the targets of the
names in front are (`declaredAliases_keeps`).
-/

namespace ScriptBundler

variable {key : String}

namespace AliasTable

theorem lookup_cons (name : String) (targets : List String) (t : AliasTable) :
    List.lookup key ((name, targets) :: t) = if key = name then some targets else List.lookup key t := by
  rw [List.lookup_cons]
  by_cases h : key = name
  · rw [if_pos h, h, BEq.rfl]
  · rw [if_neg h, beq_eq_false_iff_ne.2 h]

private theorem lookup_insert (t : AliasTable) (name : String) (targets : List String) :
    List.lookup key (insert t (name, targets)) = if key = name then some targets else List.lookup key t := by
  induction t with
  | nil => exact lookup_cons name targets []
  | cons b t ih =>
    obtain ⟨other, others⟩ := b
    rw [lookup_cons]
    by_cases replaced : other = name
    · have gone : insert ((other, others) :: t) (name, targets) = insert t (name, targets) := by simp [insert, replaced]
      rw [gone, ih, replaced]
      split_ifs <;> rfl
    · have kept : insert ((other, others) :: t) (name, targets) = (other, others) :: insert t (name, targets) := by
        simp [insert, replaced]
      rw [kept, lookup_cons, ih]
      split_ifs with here there
      · exact absurd (here.symm.trans there) replaced
      · rfl
      · rfl
      · rfl

/-- What was set last counts. -/
theorem lookup_update (t u : AliasTable) :
    List.lookup key (t.update u) = (List.lookup key u.reverse).or (List.lookup key t) := by
  induction u using List.reverseRecOn with
  | nil => rfl
  | append_singleton u a ih =>
    have step : t.update (u ++ [a]) = (t.update u).insert a := List.foldl_concat ..
    rw [step, lookup_insert, ih, List.reverse_concat, lookup_cons]
    split_ifs <;> rfl

end AliasTable

/-- The texts among the items of a list. -/
def Json.Value.texts (v : Json.Value) : List String := (v.items?.getD []).filterMap (·.string?)

/-- The path a declared target stands for. -/
def targetIn (base : Path) (target : String) : String := (base.join ⟨withoutBelow target⟩).text

variable {base directory : Path} {a : String × Json.Value} {declared : List (String × Json.Value)}

/-- The member gives targets to the alias of that text. -/
def Declares (key : String) (a : String × Json.Value) : Prop := withoutBelow a.1 = key ∧ a.2.texts ≠ []

instance : DecidablePred (Declares key) := fun _ => inferInstanceAs (Decidable (_ ∧ _))

/-- Of the members that give targets to the alias of that text, it has the last name. -/
structure DeclaresLast (declared : List (String × Json.Value)) (key : String) (a : String × Json.Value) : Prop where
  mem : a ∈ declared
  declares : Declares key a
  last : ∀ b ∈ declared, Declares key b → b.1 ≤ a.1

/-- The targets that a member gives to the alias of that text. -/
def targetsFor (base : Path) (key : String) (a : String × Json.Value) : Option (List String) :=
  if Declares key a then some (a.2.texts.map (targetIn base)) else none

private theorem targetsFor_eq_some {list : List String} :
    targetsFor base key a = some list ↔ Declares key a ∧ a.2.texts.map (targetIn base) = list :=
  Option.ite_none_right_eq_some.trans (and_congr_right fun _ => Option.some_inj)

private theorem targetsFor_eq_none : targetsFor base key a = none ↔ ¬ Declares key a := by
  rw [targetsFor]
  split_ifs with h <;> simp [h]

private theorem lookup_aliasesIn (base : Path) (declared : List (String × Json.Value)) :
    List.lookup key (aliasesIn base declared) = declared.reverse.findSome? (targetsFor base key) := by
  have rows : aliasesIn base declared = AliasTable.update [] (declared.filterMap fun a =>
      if a.2.texts = [] then none else some (withoutBelow a.1, a.2.texts.map (targetIn base))) := by
    simp only [aliasesIn, List.isEmpty_iff, Json.Value.texts]
    rfl
  rw [rows, AliasTable.lookup_update, List.lookup_nil, Option.or_none, ← List.filterMap_reverse]
  induction declared.reverse with
  | nil => rfl
  | cons a as ih =>
    rw [List.findSome?_cons, ← ih, List.filterMap_cons]
    by_cases blank : a.2.texts = []
    · rw [if_pos blank, targetsFor_eq_none.2 fun h => h.2 blank]
    · rw [if_neg blank, AliasTable.lookup_cons, targetsFor]
      by_cases same : withoutBelow a.1 = key
      · rw [if_pos same.symm, if_pos ⟨same, blank⟩]
      · rw [if_neg (Ne.symm same), if_neg fun h => same h.1]

/-- Of the aliases that come to the same text, the last one in the order of names remains. -/
theorem lookup_aliasesIn_iff (ascending : Json.Ascending declared) {list : List String} :
    List.lookup key (aliasesIn base declared) = some list ↔
      ∃ a, DeclaresLast declared key a ∧ a.2.texts.map (targetIn base) = list := by
  have backwards : declared.reverse.Pairwise fun a b => b.1 < a.1 := List.pairwise_reverse.2 ascending
  rw [lookup_aliasesIn, findSome?_eq_some_iff_of_pairwise (fun a b h => lt_asymm h) backwards]
  simp only [List.mem_reverse, targetsFor_eq_some, targetsFor_eq_none]
  constructor
  · rintro ⟨a, mem, ⟨declares, rfl⟩, none_behind⟩
    exact ⟨a, ⟨mem, declares, fun b hb hd => not_lt.1 fun behind => none_behind b hb behind hd⟩, rfl⟩
  · rintro ⟨a, last, rfl⟩
    exact ⟨a, last.mem, ⟨last.declares, rfl⟩, fun b hb behind hd => not_lt.2 (last.last b hb hd) behind⟩

/-- The directory that the targets are seen from. -/
def baseIn (directory : Path) (options : Json.Value) : Path :=
  directory.join ⟨((options.get? "baseUrl").bind (·.string?)).getD "."⟩

variable {text target : String} {value options : Json.Value}

private theorem declaredAliases_eq (read : Json.parse (Json.withoutComments text) = .ok value)
    (there : value.get? "compilerOptions" = some options) (paths : options.get? "paths" = some (.object declared)) :
    declaredAliases text directory = aliasesIn (baseIn directory options) declared := by
  simp only [declaredAliases, read, there, paths, Option.bind_some, Json.Value.members?]
  rfl

/-- No alias is lost, and it leads to all that is listed where it is declared last, and to nothing else. -/
theorem declaredAliases_keeps (directory : Path) (read : Json.parse (Json.withoutComments text) = .ok value)
    (there : value.get? "compilerOptions" = some options) (paths : options.get? "paths" = some (.object declared))
    (mem : a ∈ declared) (listed : target ∈ a.2.texts) :
    ∃ last list, DeclaresLast declared (withoutBelow a.1) last ∧
      List.lookup (withoutBelow a.1) (declaredAliases text directory) = some list ∧
      list = last.2.texts.map (targetIn (baseIn directory options)) ∧
      ((∀ b ∈ declared, Declares (withoutBelow a.1) b → b.1 ≤ a.1) → targetIn (baseIn directory options) target ∈ list) := by
  have declares : Declares (withoutBelow a.1) a := ⟨rfl, List.ne_nil_of_mem listed⟩
  have ascending : Json.Ascending declared :=
    (((Json.parse_ordered read).get? there).get? paths).ascending
  rw [declaredAliases_eq read there paths]
  have some_row : List.lookup (withoutBelow a.1) (aliasesIn (baseIn directory options) declared) ≠ none := by
    rw [lookup_aliasesIn]
    exact fun e => targetsFor_eq_none.1 (List.findSome?_eq_none_iff.1 e a (List.mem_reverse.2 mem)) declares
  obtain ⟨list, found⟩ := Option.ne_none_iff_exists'.1 some_row
  obtain ⟨last, is_last, rfl⟩ := (lookup_aliasesIn_iff ascending).1 found
  refine ⟨last, _, is_last, found, rfl, fun none_behind => ?_⟩
  have here : List.lookup (withoutBelow a.1) (aliasesIn (baseIn directory options) declared) =
      some (a.2.texts.map (targetIn (baseIn directory options))) :=
    (lookup_aliasesIn_iff ascending).2 ⟨a, ⟨mem, declares, none_behind⟩, rfl⟩
  rw [← Option.some.inj (here.symm.trans found)]
  exact List.mem_map_of_mem listed

/-- Two aliases that come to the same text. -/
def shared : String := "\x7b\"compilerOptions\":\x7b\"paths\":\x7b\"x\":[\"a\"],\"x/*\":[\"b/*\"]\x7d\x7d\x7d"

/-- The members that declare them. -/
def sharedPaths : List (String × Json.Value) := [("x", .array [.string "a"]), ("x/*", .array [.string "b/*"])]

/-- The options they stand in. -/
def sharedOptions : Json.Value := .object [("paths", .object sharedPaths)]

private theorem parse_shared :
    Json.parse (Json.withoutComments shared) = .ok (.object [("compilerOptions", sharedOptions)]) := by
  with_unfolding_all rfl

theorem declaredAliases_keeps_shared :
    Json.parse (Json.withoutComments shared) = .ok (.object [("compilerOptions", sharedOptions)]) ∧
    ("x/*", .array [.string "b/*"]) ∈ sharedPaths ∧ "b/*" ∈ (Json.Value.array [.string "b/*"]).texts ∧
    ∃ list, List.lookup "x" (declaredAliases shared ⟨"/p"⟩) = some list ∧ "/p/./b" ∈ list := by
  have mem : ("x/*", .array [.string "b/*"]) ∈ sharedPaths := by simp [sharedPaths]
  have listed : "b/*" ∈ (Json.Value.array [.string "b/*"]).texts := by decide
  have alias_eq : withoutBelow "x/*" = "x" := by decide +kernel
  have target_eq : targetIn (baseIn ⟨"/p"⟩ sharedOptions) "b/*" = "/p/./b" := by decide +kernel
  have none_behind : ∀ b ∈ sharedPaths, b.1 ≤ "x/*" := by decide +kernel
  obtain ⟨last, list, -, found, -, keeps⟩ := declaredAliases_keeps ⟨"/p"⟩ parse_shared rfl rfl mem listed
  rw [alias_eq] at found
  rw [target_eq] at keeps
  exact ⟨parse_shared, mem, listed, list, found, keeps fun b hb _ => none_behind b hb⟩

/-- The target of the first one is lost. -/
theorem declaredAliases_loses :
    Json.parse (Json.withoutComments shared) = .ok (.object [("compilerOptions", sharedOptions)]) ∧
    ("x", .array [.string "a"]) ∈ sharedPaths ∧ "a" ∈ (Json.Value.array [.string "a"]).texts ∧
    withoutBelow "x" = "x" ∧ targetIn (baseIn ⟨"/p"⟩ sharedOptions) "a" = "/p/./a" ∧
    ¬ ∃ list, List.lookup "x" (declaredAliases shared ⟨"/p"⟩) = some list ∧ "/p/./a" ∈ list := by
  have table : aliasesIn (baseIn ⟨"/p"⟩ sharedOptions) sharedPaths = [("x", ["/p/./b"])] := by decide +kernel
  rw [declaredAliases_eq parse_shared rfl rfl, table]
  refine ⟨parse_shared, by simp [sharedPaths], by decide, by decide +kernel, by decide +kernel, ?_⟩
  rintro ⟨list, found, there⟩
  obtain rfl : ["/p/./b"] = list := Option.some.inj found
  exact absurd there (by decide)

end ScriptBundler
