import ScriptBundler.Proofs.Script.Constructs
import ScriptBundler.Proofs.Script.Rules

/-!
# What is imported without types

Every rule of the grammar reads plainly in a dialect without types, so nothing in the tree of a script without types is
marked as one of types (`parse?_plain`).  Each import declaration of such a script therefore asks for its request, unless
its list of names is there and empty (`requestsOf_importDecl_iff`).
-/

namespace ScriptBundler

namespace Script

open Grammar

/-- Nothing in the tree of a script without types is marked as one of types. -/
theorem parse?_plain {dialect : Dialect} {text : List Char} {tree : Node} (untyped : dialect.types = false)
    (parsed : parse? dialect text = some tree) : tree.Plain := by
  obtain ⟨⟨items, there⟩, read, rfl⟩ := Option.map_eq_some_iff.1 parsed
  exact allPlain_eq.2 (plainly_iff.1 (script_plainly (rules_plainly _)) _ _ items there untyped read)

namespace Node

mutual

private theorem plain_constructs (n : Node) (h : plain n) : plain n.constructs := by
  cases n with
  | parens inner | spread inner => simp_all [constructs, plain_constructs inner]
  | member parts | lazyLoad parts | array parts | object parts | group parts =>
    simp_all [constructs, plain_constructsAll parts]
  | call callee types arguments =>
    simp_all [constructs, plain_constructs callee, plain_constructsAll types, plain_constructsAll arguments]
  | property key value => simp_all [constructs, plain_constructsAll key, plain_constructs value]
  | assign target value => simp_all [constructs, plain_constructs target, plain_constructs value]
  | typed inner types | applied inner types =>
    simp_all [constructs, plain_constructs inner, plain_constructsAll types]
  | _ => simp_all [constructs]

private theorem plain_constructsAll : ∀ parts : List Node, plain parts → plain (constructsAll parts)
  | [], _ => plain_nil
  | part :: rest, h =>
    plain_append.2 ⟨plain_constructs part (plain_cons.1 h).1, plain_constructsAll rest (plain_cons.1 h).2⟩

end

end Node

end Script

open Script Script.Node

variable {p : Path} {text : String} {tree : Script.Node} {before after : List Script.Node}
variable {typeOnly : Bool} {bindings : Option (List Binding)} {request : String}

/-- Where nothing is marked, an import is kept but for an empty list of names. -/
private theorem importLoads_iff_of_plain (h : (importDecl typeOnly bindings request).Plain) :
    importLoads typeOnly bindings = true ↔ bindings ≠ some [] := by
  obtain ⟨rfl, unmarked⟩ := h
  rcases bindings with _ | _ | ⟨binding, rest⟩
  · simp [importLoads]
  · simp [importLoads]
  · have first : binding.typeOnly = false := unmarked _ rfl binding List.mem_cons_self
    simp [importLoads, first]

/-- The requests of a script without types hold that of each import declaration, once and at its place, whatever the
declaration names: nothing but its request, a default, all of the module, or names from it.  Only if its list of names is
there and empty the request is left out. -/
theorem requestsOf_importDecl_iff (untyped : p.dialect.types = false) (parsed : parse? p.dialect text.toList = some tree)
    (place : tree.constructs = before ++ importDecl typeOnly bindings request :: after) :
    requestsOf p text = .ok (before.filterMap load? ++ ⟨request, .eager⟩ :: after.filterMap load?) ↔ bindings ≠ some [] := by
  have unmarked : (importDecl typeOnly bindings request).Plain :=
    plain_constructs tree (parse?_plain untyped parsed) _ (by simp [place])
  have at_place : requestsOf p text = .ok (before.filterMap load? ++ ((some ⟨request, .eager⟩).toList ++ _)) ↔ _ :=
    requestsOf_eq_iff parsed place
  rw [← importLoads_iff_of_plain unmarked]
  refine at_place.trans ?_
  rw [load?]
  cases importLoads typeOnly bindings <;> simp

/-- Imports of each kind. -/
def importsOfEachKind : String := "import './s';\nimport d, \x7b a \x7d from './a';\nimport * as n from './n';"

/-- The tree of `importsOfEachKind`. -/
def treeOfEachKind : Script.Node :=
  .group [.importDecl false none "./s", .importDecl false (some [⟨false⟩, ⟨false⟩]) "./a",
    .importDecl false (some [⟨false⟩]) "./n"]

theorem requestsOf_importDecl_each :
    (Path.dialect ⟨"a.js"⟩).types = false ∧
      parse? (Path.dialect ⟨"a.js"⟩) importsOfEachKind.toList = some treeOfEachKind ∧
      requestsOf ⟨"a.js"⟩ importsOfEachKind = .ok [⟨"./s", .eager⟩, ⟨"./a", .eager⟩, ⟨"./n", .eager⟩] := by
  have parsed : parse? (Path.dialect ⟨"a.js"⟩) importsOfEachKind.toList = some treeOfEachKind := rfl
  have place : treeOfEachKind.constructs = [treeOfEachKind, .importDecl false none "./s"] ++
      .importDecl false (some [⟨false⟩, ⟨false⟩]) "./a" ::
        [.importDecl false (some [⟨false⟩]) "./n"] := rfl
  exact ⟨rfl, parsed, (requestsOf_importDecl_iff rfl parsed place).2 (by simp)⟩

/-- A script that imports nothing by name from a module does not load it. -/
theorem requestsOf_drops_import :
    (Path.dialect ⟨"a.js"⟩).types = false ∧
      (∃ tree, parse? (Path.dialect ⟨"a.js"⟩) "import \x7b\x7d from './b';".toList = some tree ∧
        importDecl false (some []) "./b" ∈ tree.constructs) ∧
      requestsOf ⟨"a.js"⟩ "import \x7b\x7d from './b';" = .ok [] :=
  ⟨rfl, ⟨.group [.importDecl false (some []) "./b"], rfl, by simp [constructs, constructsAll]⟩, rfl⟩

end ScriptBundler
