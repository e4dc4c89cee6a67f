import Mathlib.Data.List.Nodup
import ScriptBundler.Proofs.Trace.Resolve

/-!
# Aliases of requests

An alias covers a request that is its name or goes on behind it with a slash. Of two names that cover one request the
shorter is the front of the longer, so no two aliases of one length do, and the order in which aliases are given does not
matter (`Resolver.of_perm`).

* `Resolver.findAlias_eq_some_iff`: a request leads to the first file to which a target leads, when the aliases that cover
  it are taken from the longest to the shortest;
* `Resolver.resolve_alias_iff`: the packages are searched if and only if there is no such file.
-/

namespace ScriptBundler

variable {name longer request rest rest' target : String} {targets : List String} {root p q : Path} {d d' : Disk}
  {t t' : AliasTable} {rs : Resolutions}

/-! ### Names that cover a request -/

/-- The request is the name, or goes on behind it with a slash and the rest. -/
def Covers (name request rest : String) : Prop := (request = name ∧ rest = "") ∨ request = name ++ "/" ++ rest

private theorem behindAlias?_eq_some_iff : behindAlias? name request = some rest ↔ Covers name request rest := by
  have size (rest : String) : name ≠ name ++ "/" ++ rest := fun e => by
    have := congrArg String.length e
    have slash : "/".length = 1 := rfl
    rw [String.length_append, String.length_append] at this
    omega
  unfold behindAlias?
  split
  · rename_i h
    subst h
    rw [Option.some_inj]
    exact ⟨fun h => .inl ⟨rfl, h.symm⟩, fun h => (h.resolve_right (size rest)).2.symm⟩
  · rename_i h
    rw [Covers, or_iff_right fun k => h k.1]
    extract_lets opening
    split
    · rename_i hp
      obtain ⟨tail, e⟩ := List.isPrefixOf_iff_prefix.1 hp
      rw [← e, List.drop_left, Option.some_inj, ← String.toList_inj, ← String.toList_inj, ← e]
      simp [opening]
    · rename_i hp
      refine iff_of_false nofun fun e => hp (List.isPrefixOf_iff_prefix.2 ⟨rest.toList, ?_⟩)
      rw [e]
      simp [opening]

namespace Covers

private theorem isPrefix (h : Covers name request rest) : name.toList <+: request.toList := by
  rcases h with ⟨rfl, -⟩ | rfl
  · exact List.prefix_rfl
  · simp

/-- One of two names that cover a request goes on behind the other. -/
private theorem exists_append (h : Covers name request rest) (k : Covers longer request rest') :
    (∃ tail, longer = name ++ tail) ∨ ∃ tail, name = longer ++ tail := by
  have of_prefix {a b : String} : a.toList <+: b.toList → ∃ tail, b = a ++ tail := by
    rintro ⟨tail, e⟩
    exact ⟨String.ofList tail, String.toList_inj.1 (by simp [← e])⟩
  exact (List.prefix_or_prefix_of_prefix h.isPrefix k.isPrefix).imp of_prefix of_prefix

end Covers

/-! ### The order of aliases -/

private theorem aliasLe_iff {a b : String × List String} : aliasLe a b = true ↔
    b.1.utf8ByteSize < a.1.utf8ByteSize ∨ (a.1.utf8ByteSize = b.1.utf8ByteSize ∧ a.1 ≤ b.1) := by
  simp [aliasLe]

private theorem pairwise_aliases (root : Path) (t : AliasTable) :
    (Resolver.of root t).aliases.Pairwise fun a b => aliasLe a b = true := by
  refine List.pairwise_mergeSort (fun a b c hab hbc => ?_) (fun a b => ?_) t
  · rw [aliasLe_iff] at hab hbc ⊢
    rcases hab with hab | ⟨hab, le⟩ <;> rcases hbc with hbc | ⟨hbc, le'⟩
    · exact .inl (by omega)
    · exact .inl (by omega)
    · exact .inl (by omega)
    · exact .inr ⟨by omega, String.le_trans le le'⟩
  · rw [Bool.or_eq_true, aliasLe_iff, aliasLe_iff]
    rcases Nat.lt_trichotomy a.1.utf8ByteSize b.1.utf8ByteSize with h | h | h
    · exact .inr (.inl h)
    · exact (String.le_total a.1 b.1).imp (fun le => .inr ⟨h, le⟩) fun le => .inr ⟨h.symm, le⟩
    · exact .inl (.inl h)

private theorem mem_aliases {a : String × List String} : a ∈ (Resolver.of root t).aliases ↔ a ∈ t := List.mem_mergeSort

/-- An alias stands in front of another one. -/
def Ahead (a b : String × List String) : Prop := aliasLe a b = true ∧ a.1 ≠ b.1

private theorem Ahead.asymm {a b : String × List String} (h : Ahead a b) : ¬ Ahead b a := by
  rintro ⟨ba, -⟩
  obtain ⟨ab, ne⟩ := h
  rw [aliasLe_iff] at ab ba
  rcases ab with ab | ⟨ab, le⟩ <;> rcases ba with ba | ⟨ba, le'⟩
  · omega
  · omega
  · omega
  · exact ne (String.le_antisymm le le')

private theorem pairwise_ahead (root : Path) (distinct : (t.map (·.1)).Nodup) :
    (Resolver.of root t).aliases.Pairwise Ahead := by
  have apart : ((Resolver.of root t).aliases.map (·.1)).Nodup := ((List.mergeSort_perm ..).map _).nodup_iff.2 distinct
  exact (pairwise_aliases root t).and (List.pairwise_map.1 apart)

/-- Of two aliases that cover a request, the longer one stands in front. -/
private theorem Covers.length_lt_iff {targets' : List String} (h : Covers name request rest)
    (k : Covers longer request rest') : name.length < longer.length ↔ Ahead (longer, targets') (name, targets) := by
  simp only [Ahead, aliasLe_iff]
  rcases h.exists_append k with ⟨tail, rfl⟩ | ⟨tail, rfl⟩
  · rw [String.length_append, String.utf8ByteSize_append]
    by_cases ht : tail = ""
    · subst ht
      simp
    · have length_ne : tail.length ≠ 0 := mt String.length_eq_zero_iff.1 ht
      have size_ne : tail.utf8ByteSize ≠ 0 := mt String.utf8ByteSize_eq_zero_iff.1 ht
      refine iff_of_true (by omega) ⟨.inl (by omega), fun e => ?_⟩
      have := congrArg String.length e
      rw [String.length_append] at this
      omega
  · rw [String.length_append, String.utf8ByteSize_append]
    refine iff_of_false (by omega) ?_
    rintro ⟨lt | ⟨e, -⟩, ne⟩
    · omega
    · have ht : tail = "" := String.utf8ByteSize_eq_zero_iff.1 (by omega)
      rw [ht, String.append_empty] at ne
      exact ne rfl

private theorem Resolver.of_sorted (sorted : t.Pairwise fun a b => aliasLe a b = true) :
    Resolver.of root t = ⟨root, t⟩ := by
  rw [of, List.mergeSort_of_pairwise sorted]

/-- The order in which aliases are given does not matter. -/
theorem Resolver.of_perm (distinct : (t.map (·.1)).Nodup) (h : t'.Perm t) : Resolver.of root t' = Resolver.of root t := by
  have perm : (Resolver.of root t').aliases.Perm (Resolver.of root t).aliases :=
    (List.mergeSort_perm ..).trans (h.trans (List.mergeSort_perm ..).symm)
  -- no two aliases stand in front of each other
  have same := perm.eq_of_pairwise (fun a b _ _ hab hba => absurd hba hab.asymm)
    (pairwise_ahead root ((h.map _).nodup_iff.2 distinct)) (pairwise_ahead root distinct)
  exact congrArg (Resolver.mk root) same

/-! ### Targets -/

/-- Where a target leads what is left of a request. -/
def targetPath (target rest : String) : Path := if rest = "" then ⟨target⟩ else (⟨target⟩ : Path).join ⟨rest⟩

namespace AliasTable

/-- No target of an alias that covers the request leads to a file. -/
def Barren (t : AliasTable) (d : Disk) (request : String) : Prop :=
  ∀ a ∈ t, ∀ rest, Covers a.1 request rest → ∀ target ∈ a.2, resolveFile d (targetPath target rest) = none

/-- A target of an alias that covers the request leads to a file, and neither does one in front of it, nor one of a longer
alias. -/
def LeadsFirst (t : AliasTable) (d : Disk) (request : String) (q : Path) : Prop :=
  ∃ name front target back rest, (name, front ++ target :: back) ∈ t ∧ Covers name request rest ∧
    resolveFile d (targetPath target rest) = some q ∧
    (∀ earlier ∈ front, resolveFile d (targetPath earlier rest) = none) ∧
    Barren (t.filter fun a => name.length < a.1.length) d request

/-- The targets of all aliases that cover the request lead to the same files on two disks. -/
def SameTargets (t : AliasTable) (d d' : Disk) (request : String) : Prop :=
  ∀ a ∈ t, ∀ rest, Covers a.1 request rest → ∀ target ∈ a.2,
    resolveFile d' (targetPath target rest) = resolveFile d (targetPath target rest)

private theorem SameTargets.barren (same : t.SameTargets d d' request) (h : t.Barren d request) : t.Barren d' request :=
  fun a ha rest covers target ht => (same a ha rest covers target ht).trans (h a ha rest covers target ht)

private theorem SameTargets.leadsFirst (same : t.SameTargets d d' request) (h : t.LeadsFirst d request q) :
    t.LeadsFirst d' request q := by
  obtain ⟨name, front, target, back, rest, mem, covers, leads, earlier, longer⟩ := h
  have same_here := same _ mem rest covers
  have same_longer : SameTargets (t.filter fun a => name.length < a.1.length) d d' request :=
    fun a ha => same a (List.mem_filter.1 ha).1
  refine ⟨name, front, target, back, rest, mem, covers, ?_, fun x hx => ?_, same_longer.barren longer⟩
  · rw [same_here target (by simp), leads]
  · rw [same_here x (by simp [hx]), earlier x hx]

/-- The file to which the targets of one alias lead. -/
private def aliasFile? (d : Disk) (request : String) (a : String × List String) : Option Path := do
  let rest ← behindAlias? a.1 request
  a.2.findSome? fun target => resolveFile d (targetPath target rest)

private theorem aliasFile?_eq_some_iff : aliasFile? d request (name, targets) = some q ↔
    ∃ front target back rest, targets = front ++ target :: back ∧ Covers name request rest ∧
      resolveFile d (targetPath target rest) = some q ∧
      ∀ earlier ∈ front, resolveFile d (targetPath earlier rest) = none := by
  unfold aliasFile?
  simp only [Option.bind_eq_bind, Option.bind_eq_some_iff, List.findSome?_eq_some_iff, behindAlias?_eq_some_iff]
  constructor
  · rintro ⟨rest, covers, front, target, back, e, leads, earlier⟩
    exact ⟨front, target, back, rest, e, covers, leads, earlier⟩
  · rintro ⟨front, target, back, rest, e, covers, leads, earlier⟩
    exact ⟨rest, covers, front, target, back, e, leads, earlier⟩

private theorem aliasFile?_eq_none_iff : aliasFile? d request (name, targets) = none ↔
    ∀ rest, Covers name request rest → ∀ target ∈ targets, resolveFile d (targetPath target rest) = none := by
  unfold aliasFile?
  simp only [Option.bind_eq_bind, Option.bind_eq_none_iff, List.findSome?_eq_none_iff, behindAlias?_eq_some_iff]

end AliasTable

namespace Resolver

open AliasTable

private theorem findAlias_eq (r : Resolver) (d : Disk) (request : String) :
    r.findAlias d request = r.aliases.findSome? (aliasFile? d request) := rfl

private theorem findAlias_eq_none_iff : (of root t).findAlias d request = none ↔ t.Barren d request := by
  simp only [findAlias_eq, List.findSome?_eq_none_iff, mem_aliases, Prod.forall, aliasFile?_eq_none_iff, Barren]

/-- The first alias with a file is one without a longer one that has a file. -/
theorem findAlias_eq_some_iff (distinct : (t.map (·.1)).Nodup) :
    (of root t).findAlias d request = some q ↔ t.LeadsFirst d request q := by
  rw [findAlias_eq, findSome?_eq_some_iff_of_pairwise (fun _ _ => Ahead.asymm) (pairwise_ahead root distinct)]
  constructor
  · rintro ⟨⟨name, targets⟩, mem, file, missed⟩
    obtain ⟨front, target, back, rest, rfl, covers, leads, earlier⟩ := aliasFile?_eq_some_iff.1 file
    refine ⟨name, front, target, back, rest, mem_aliases.1 mem, covers, leads, earlier, ?_⟩
    rintro ⟨longer, targets⟩ ha rest' covers'
    obtain ⟨ha, lt⟩ := List.mem_filter.1 ha
    have ahead : Ahead (longer, targets) (name, front ++ target :: back) :=
      (covers.length_lt_iff covers').1 (of_decide_eq_true lt)
    exact aliasFile?_eq_none_iff.1 (missed _ (mem_aliases.2 ha) ahead) rest' covers'
  · rintro ⟨name, front, target, back, rest, mem, covers, leads, earlier, barren⟩
    have file : aliasFile? d request (name, front ++ target :: back) = some q :=
      aliasFile?_eq_some_iff.2 ⟨front, target, back, rest, rfl, covers, leads, earlier⟩
    refine ⟨_, mem_aliases.2 mem, file, ?_⟩
    rintro ⟨longer, targets⟩ ha ahead
    refine aliasFile?_eq_none_iff.2 fun rest' covers' => ?_
    have lt : name.length < longer.length := (covers.length_lt_iff covers').2 ahead
    exact barren _ (List.mem_filter.2 ⟨mem_aliases.1 ha, decide_eq_true lt⟩) rest' covers'

/-- A request that is no path leads to the first file that the aliases give, whatever else there is on the disk, and only
where they give none to a package. The order of the aliases in the table does not matter. -/
theorem resolve_alias_iff (distinct : (t.map (·.1)).Nodup) (bare : isPathRequest request = false)
    (fresh : rs.get? p request = none) :
    (∀ q, (of root t).findAlias d request = some q ↔ t.LeadsFirst d request q) ∧
    ((of root t).findAlias d request = none ↔ t.Barren d request) ∧
    (∀ q, t.LeadsFirst d request q → ∀ d', t.SameTargets d d' request →
      ((of root t).resolve d' p request rs).1 = some q) ∧
    (t.Barren d request → ((of root t).resolve d p request rs).1 =
      (of root t).findPackage d (p.parent?.getD root) request) ∧
    ∀ t', t'.Perm t → of root t' = of root t := by
  have resolved (d : Disk) : ((of root t).resolve d p request rs).1 = ((of root t).findAlias d request).or
      ((of root t).findPackage d (p.parent?.getD root) request) := by
    rw [resolve_eq_find fresh, find_eq_of_bare bare]
    rfl
  refine ⟨fun q => findAlias_eq_some_iff distinct, findAlias_eq_none_iff, fun q leads d' same => ?_, fun barren => ?_,
    fun t' => of_perm distinct⟩
  · rw [resolved, (findAlias_eq_some_iff distinct).2 (same.leadsFirst leads), Option.some_or]
  · rw [resolved, findAlias_eq_none_iff.2 barren, Option.none_or]

/-- A project with a package that has the name of an alias. -/
def nested : Disk where
  workingDirectory := []
  nodes := [(["main.js"], .file .empty 0), (["src"], .directory 0), (["src", "ui"], .directory 0),
    (["src", "ui", "button.ts"], .file .empty 0), (["node_modules"], .directory 0), (["node_modules", "@"], .directory 0),
    (["node_modules", "@", "ui"], .directory 0), (["node_modules", "@", "ui", "button.ts"], .file .empty 0)]

/-- The target of the longer alias is missing, and so is the first one of the shorter alias. -/
def nestedAliases : AliasTable := [("@/ui", ["/gone"]), ("@x", ["/x"]), ("@", ["/old", "/src"])]

theorem resolve_alias_nested : (nestedAliases.map (·.1)).Nodup ∧ isPathRequest "@/ui/button" = false ∧
    Resolutions.get? [] ⟨"/main.js"⟩ "@/ui/button" = none ∧
    nestedAliases.LeadsFirst nested "@/ui/button" ⟨"/src/ui/button.ts"⟩ ∧
    ((of ⟨"/"⟩ nestedAliases).resolve nested ⟨"/main.js"⟩ "@/ui/button" []).1 = some ⟨"/src/ui/button.ts"⟩ ∧
    of ⟨"/"⟩ nestedAliases.reverse = of ⟨"/"⟩ nestedAliases := by
  have distinct : (nestedAliases.map (·.1)).Nodup := by decide
  have bare : isPathRequest "@/ui/button" = false := by decide +kernel
  have fresh : Resolutions.get? [] ⟨"/main.js"⟩ "@/ui/button" = none := rfl
  obtain ⟨first, -, leads, -, order⟩ := resolve_alias_iff (d := nested) distinct bare fresh
  have found : (of ⟨"/"⟩ nestedAliases).findAlias nested "@/ui/button" = some ⟨"/src/ui/button.ts"⟩ := by
    rw [of_sorted (by decide +kernel), Path.eq_some_iff]
    decide +kernel
  have here := (first _).1 found
  exact ⟨distinct, bare, fresh, here, leads _ here nested fun _ _ _ _ _ _ => rfl, order _ (List.reverse_perm _)⟩

end Resolver

end ScriptBundler
