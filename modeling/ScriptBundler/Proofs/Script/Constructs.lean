import ScriptBundler.Trace.Request

/-!
# The constructs of a script

The constructs of a tree in the order in which they are written, and the load that a construct asks for by itself.

* the loads of a tree are those of its constructs, each at its place (`loads_eq_filterMap`, `requestsOf_eq_iff`);
* a declaration that lists names of another module loads it because of a name that is no type, except that a list of
  exports is not looked through (`requestsOf_listing_iff`).
-/

namespace ScriptBundler

namespace Script.Node

mutual

/-- A construct and those inside it, in the order in which their loads are told.  The fallback of a member named as its
value is none of them: it counts only where the object is assigned to. -/
def constructs (n : Node) : List Node :=
  n :: match n with
    | .name _ | .text _ | .hole | .shorthand _ | .importDecl .. | .exportAll .. | .exportList .. => []
    | .parens inner | .spread inner => constructs inner
    | .member parts | .lazyLoad parts | .array parts | .object parts | .group parts => constructsAll parts
    | .call callee types arguments => constructs callee ++ (constructsAll types ++ constructsAll arguments)
    | .property key value => constructsAll key ++ constructs value
    | .assign target value => constructs target ++ constructs value
    | .typed inner types | .applied inner types => constructs inner ++ constructsAll types

/-- The constructs of several trees, one tree after the other. -/
def constructsAll : List Node → List Node
  | [] => []
  | part :: rest => constructs part ++ constructsAll rest

end

/-- The load that a construct asks for by itself, whatever stands inside it. -/
def load? : Node → Option Load
  | .call callee _ arguments => (requireCall? callee arguments).map (Load.mk · .eager)
  | .lazyLoad parts => (lazyRequest? parts).map (Load.mk · .lazy)
  | .importDecl typeOnly bindings request => if importLoads typeOnly bindings then some ⟨request, .eager⟩ else none
  | .exportAll typeOnly request => if typeOnly then none else some ⟨request, .eager⟩
  | .exportList typeOnly _ source => if typeOnly then none else source.map (Load.mk · .eager)
  | _ => none

mutual

theorem loads_eq_filterMap (n : Node) : n.loads = n.constructs.filterMap load? := by
  cases n with
  | name | text | hole | shorthand => rfl
  | parens inner => simpa [loads, constructs, List.filterMap_cons, load?] using loads_eq_filterMap inner
  | spread inner => simpa [loads, constructs, List.filterMap_cons, load?] using loads_eq_filterMap inner
  | member parts => simpa [loads, constructs, List.filterMap_cons, load?] using loadsAll_eq_filterMap parts
  | array items => simpa [loads, constructs, List.filterMap_cons, load?] using loadsAll_eq_filterMap items
  | object items => simpa [loads, constructs, List.filterMap_cons, load?] using loadsAll_eq_filterMap items
  | group parts => simpa [loads, constructs, List.filterMap_cons, load?] using loadsAll_eq_filterMap parts
  | lazyLoad parts =>
    rw [loads, constructs, List.filterMap_cons, load?, loadsAll_eq_filterMap parts]
    cases lazyRequest? parts <;> rfl
  | call callee types arguments =>
    rw [loads, constructs, List.filterMap_cons, load?, List.filterMap_append, List.filterMap_append,
      loads_eq_filterMap callee, loadsAll_eq_filterMap types, loadsAll_eq_filterMap arguments]
    cases requireCall? callee arguments <;> rfl
  | property key value =>
    simp [loads, constructs, List.filterMap_cons, load?, loadsAll_eq_filterMap key, loads_eq_filterMap value]
  | assign target value =>
    simp [loads, constructs, List.filterMap_cons, load?, loads_eq_filterMap target, loads_eq_filterMap value]
  | typed inner types =>
    simp [loads, constructs, List.filterMap_cons, load?, loads_eq_filterMap inner, loadsAll_eq_filterMap types]
  | applied inner types =>
    simp [loads, constructs, List.filterMap_cons, load?, loads_eq_filterMap inner, loadsAll_eq_filterMap types]
  | importDecl typeOnly bindings request =>
    rw [loads, constructs, List.filterMap_cons, load?]
    cases importLoads typeOnly bindings <;> rfl
  | exportAll typeOnly request => cases typeOnly <;> rfl
  | exportList typeOnly bindings source => cases typeOnly <;> cases source <;> rfl

private theorem loadsAll_eq_filterMap : ∀ parts : List Node, loadsAll parts = (constructsAll parts).filterMap load?
  | [] => rfl
  | part :: rest => by
    rw [loadsAll, constructsAll, List.filterMap_append, loads_eq_filterMap part, loadsAll_eq_filterMap rest]

end

end Script.Node

open Script (Binding parse? loads?)
open Script.Node

variable {p : Path} {text : String} {tree n : Script.Node} {before after : List Script.Node}

/-- The requests of a script are those of its constructs: each construct gives its own at its place. -/
theorem requestsOf_eq_iff {load : Option Script.Load} (parsed : parse? p.dialect text.toList = some tree)
    (place : tree.constructs = before ++ n :: after) :
    requestsOf p text = .ok (before.filterMap load? ++ (load.toList ++ after.filterMap load?)) ↔ n.load? = load := by
  have loaded : loads? p.dialect text = some (before.filterMap load? ++ (n.load?.toList ++ after.filterMap load?)) := by
    rw [loads?, parsed, Option.map_some, loads_eq_filterMap, place, List.filterMap_append, List.filterMap_cons]
    cases n.load? <;> rfl
  rw [requestsOf, loaded, Except.ok.injEq, List.append_right_inj, List.append_left_inj]
  exact ⟨fun e => by simpa using congrArg List.head? e, congrArg Option.toList⟩

/-! ### Declarations that list names -/

/-- A declaration that lists names of another module: an export of them, or an import. -/
def Script.Node.listing (exports typeOnly : Bool) (bindings : List Binding) (request : String) : Script.Node :=
  if exports then .exportList typeOnly bindings (some request) else .importDecl typeOnly (some bindings) request

/-- A declaration names a value: neither is it marked as a whole as one of types, nor is each of its names. -/
def NamesValue (typeOnly : Bool) (bindings : List Binding) : Prop :=
  typeOnly = false ∧ ∃ b ∈ bindings, b.typeOnly = false

instance (typeOnly : Bool) (bindings : List Binding) : Decidable (NamesValue typeOnly bindings) :=
  inferInstanceAs (Decidable (_ ∧ _))

variable {exports typeOnly : Bool} {bindings : List Binding} {request : String}

private theorem importLoads_some : importLoads typeOnly (some bindings) = true ↔ NamesValue typeOnly bindings := by
  simp [importLoads, NamesValue]

private theorem load?_importListing :
    (listing false typeOnly bindings request).load? =
      if NamesValue typeOnly bindings then some ⟨request, .eager⟩ else none :=
  ite_congr (propext importLoads_some) (fun _ => rfl) fun _ => rfl

/-- A list of exports is not looked through: only the mark of the whole counts. -/
private theorem load?_exportListing :
    (listing true typeOnly bindings request).load? = if typeOnly then none else some ⟨request, .eager⟩ := rfl

/-- A declaration asks for its request because of a name that is no type exactly if it is an import, or marked as a whole
or not all of its names are marked. -/
private theorem load?_listing_iff :
    (listing exports typeOnly bindings request).load? =
        (if NamesValue typeOnly bindings then some ⟨request, .eager⟩ else none) ↔
      (exports = true → typeOnly = true ∨ ∃ b ∈ bindings, b.typeOnly = false) := by
  cases exports with
  | false => simp [load?_importListing]
  | true =>
    rw [load?_exportListing]
    cases typeOnly <;> simp [NamesValue]

/-- The requests of a script hold that of a declaration with a list of names, at its place and because of it, just if the
declaration names a value.  This is so of every declaration but of an export that marks each of its names as a type and
not the whole, which loads all the same. -/
theorem requestsOf_listing_iff (parsed : parse? p.dialect text.toList = some tree)
    (place : tree.constructs = before ++ listing exports typeOnly bindings request :: after) :
    requestsOf p text = .ok (before.filterMap load? ++
        ((if NamesValue typeOnly bindings then some ⟨request, .eager⟩ else none).toList ++ after.filterMap load?)) ↔
      (exports = true → typeOnly = true ∨ ∃ b ∈ bindings, b.typeOnly = false) := by
  rw [requestsOf_eq_iff parsed place, load?_listing_iff]

/-- A list that names a type and a value, in front of another declaration. -/
def mixedExport : String := "export \x7b type A, b \x7d from './b';\nimport d from './d';"

/-- The tree of `mixedExport`. -/
def mixedTree : Script.Node :=
  .group [listing true false [⟨true⟩, ⟨false⟩] "./b", listing false false [⟨false⟩] "./d"]

theorem requestsOf_listing_mixed :
    parse? (Path.dialect ⟨"a.ts"⟩) mixedExport.toList = some mixedTree ∧
      mixedTree.constructs = [mixedTree] ++ listing true false [⟨true⟩, ⟨false⟩] "./b" ::
        [listing false false [⟨false⟩] "./d"] ∧
      requestsOf ⟨"a.ts"⟩ mixedExport = .ok [⟨"./b", .eager⟩, ⟨"./d", .eager⟩] := by
  have parsed : parse? (Path.dialect ⟨"a.ts"⟩) mixedExport.toList = some mixedTree := rfl
  have place : mixedTree.constructs = [mixedTree] ++ listing true false [⟨true⟩, ⟨false⟩] "./b" ::
      [listing false false [⟨false⟩] "./d"] := rfl
  exact ⟨parsed, place, (requestsOf_listing_iff parsed place).2 fun _ => .inr ⟨⟨false⟩, by simp⟩⟩

/-- An export of types only loads their module, and an import of the same names does not. -/
theorem requestsOf_exports_types :
    (∃ tree, parse? (Path.dialect ⟨"a.ts"⟩) "export \x7b type A \x7d from './b';".toList = some tree ∧
      listing true false [⟨true⟩] "./b" ∈ tree.constructs) ∧
      ¬NamesValue false [⟨true⟩] ∧
      requestsOf ⟨"a.ts"⟩ "export \x7b type A \x7d from './b';" = .ok [⟨"./b", .eager⟩] ∧
      requestsOf ⟨"a.ts"⟩ "import \x7b type A \x7d from './b';" = .ok [] :=
  ⟨⟨.group [listing true false [⟨true⟩] "./b"], rfl, by simp [constructs, constructsAll, listing]⟩,
    by simp [NamesValue], rfl, rfl⟩

end ScriptBundler
