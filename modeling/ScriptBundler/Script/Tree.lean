/-!
# The tree of a script

A script reduced to what decides which modules it loads: declarations of imports and exports, calls, quoted texts and
names are kept apart; every other construct keeps its parts in the order in which they are written.  What
may be assigned to is told from the tree (`asTarget?`), and so are the modules that a script loads (`loads`).
-/

namespace ScriptBundler.Script

/-- One name of an import or export list. -/
structure Binding where
  /-- Marked as naming a type. -/
  typeOnly : Bool
deriving DecidableEq, Repr

/-- How a load happens: before the script runs, or when it asks. -/
inductive LoadKind
  | eager
  | lazy
deriving DecidableEq, Repr

/-- A module that a script loads. -/
structure Load where
  request : String
  kind : LoadKind
deriving DecidableEq, Repr

/-- A construct of a script. -/
inductive Node
  /-- A name that stands for a value. -/
  | name (text : String)
  /-- A quoted text. -/
  | text (value : String)
  /-- An expression in parentheses. -/
  | parens (inner : Node)
  /-- A member of a value; `parts` are the value and a computed key. -/
  | member (parts : List Node)
  /-- A call; `types` are what the callee is applied to first. -/
  | call (callee : Node) (types arguments : List Node)
  /-- A load at run time; `parts` are the request and the options. -/
  | lazyLoad (parts : List Node)
  | array (items : List Node)
  | object (items : List Node)
  /-- A member of an object with its key and value. -/
  | property (key : List Node) (value : Node)
  /-- A member of an object named as its value; `fallback` counts only where the object is assigned to. -/
  | shorthand (fallback : List Node)
  /-- A missing item of an array. -/
  | hole
  | spread (inner : Node)
  /-- A plain assignment. -/
  | assign (target value : Node)
  /-- An expression with a statement about its type, which leaves the value as it is. -/
  | typed (inner : Node) (types : List Node)
  /-- An expression applied to types. -/
  | applied (inner : Node) (types : List Node)
  /-- An import declaration; no `bindings` if nothing but the request is written. -/
  | importDecl (typeOnly : Bool) (bindings : Option (List Binding)) (request : String)
  /-- An export of all that another module exports. -/
  | exportAll (typeOnly : Bool) (request : String)
  /-- An export of listed names, from another module if `source` is given. -/
  | exportList (typeOnly : Bool) (bindings : List Binding) (source : Option String)
  /-- Any other construct. -/
  | group (parts : List Node)

namespace Node

/-- A construct without parts that matter. -/
def leaf : Node := .group []

/-- An import declaration loads its module unless all it names are types. -/
def importLoads (typeOnly : Bool) (bindings : Option (List Binding)) : Bool :=
  !typeOnly && match bindings with
    | none => true
    | some bindings => bindings.any (!·.typeOnly)

/-- The request of a call of the plain name `require` with a quoted text. -/
def requireCall? (callee : Node) (arguments : List Node) : Option String :=
  match callee, arguments with
  | .name "require", .text request :: _ => some request
  | _, _ => none

/-- The request of a load at run time that asks for a quoted text. -/
def lazyRequest? : List Node → Option String
  | .text request :: _ => some request
  | _ => none

mutual

/-- The modules that a construct loads, in the order in which they are written. -/
def loads : Node → List Load
  | .name _ | .text _ | .hole => []
  | .parens inner => loads inner
  | .member parts => loadsAll parts
  | .call callee types arguments =>
    ((requireCall? callee arguments).map (Load.mk · .eager)).toList ++
      (loads callee ++ (loadsAll types ++ loadsAll arguments))
  | .lazyLoad parts => ((lazyRequest? parts).map (Load.mk · .lazy)).toList ++ loadsAll parts
  | .array items => loadsAll items
  | .object items => loadsAll items
  | .property key value => loadsAll key ++ loads value
  | .shorthand _ => []
  | .spread inner => loads inner
  | .assign target value => loads target ++ loads value
  | .typed inner types => loads inner ++ loadsAll types
  | .applied inner types => loads inner ++ loadsAll types
  | .importDecl typeOnly bindings request => if importLoads typeOnly bindings then [⟨request, .eager⟩] else []
  | .exportAll typeOnly request => if typeOnly then [] else [⟨request, .eager⟩]
  | .exportList typeOnly _ source =>
    match source with
    | some request => if typeOnly then [] else [⟨request, .eager⟩]
    | none => []
  | .group parts => loadsAll parts

/-- The modules that constructs load, one construct after the other. -/
def loadsAll : List Node → List Load
  | [] => []
  | part :: rest => loads part ++ loadsAll rest

end

/-! ### Targets of assignments -/

/-- Whether a value may be assigned to the expression; parentheses around an array or an object are refused. -/
def assignable : Node → Bool
  | .name _ | .member _ | .typed .. => true
  | .parens inner =>
    match inner with
    | .array _ | .object _ => false
    | _ => assignable inner
  | _ => false

mutual

/-- The expression read as the target of an assignment, with the fallbacks of its members in force. -/
def asTarget? : Node → Option Node
  | .array items => (itemTargets? items).map .array
  | .object items => (memberTargets? items).map .object
  | .name label => some (.name label)
  | .member parts => some (.member parts)
  | .typed inner types => some (.typed inner types)
  | .parens inner => if assignable (.parens inner) then some (.parens inner) else none
  | _ => none

/-- A target that may carry a fallback. -/
def fallbackTarget? : Node → Option Node
  | .assign target value => (asTarget? target).map (.assign · value)
  | .array items => (itemTargets? items).map .array
  | .object items => (memberTargets? items).map .object
  | .name label => some (.name label)
  | .member parts => some (.member parts)
  | .typed inner types => some (.typed inner types)
  | .parens inner => if assignable (.parens inner) then some (.parens inner) else none
  | _ => none

/-- The items of an array as targets; only the last may gather the rest. -/
def itemTargets? : List Node → Option (List Node)
  | [] => some []
  | [.spread inner] => (asTarget? inner).map fun target => [.spread target]
  | .hole :: rest => (itemTargets? rest).map (.hole :: ·)
  | item :: rest =>
    match fallbackTarget? item, itemTargets? rest with
    | some target, some targets => some (target :: targets)
    | _, _ => none

/-- The members of an object as targets; only the last may gather the rest. -/
def memberTargets? : List Node → Option (List Node)
  | [] => some []
  | [.spread inner] => (asTarget? inner).map fun target => [.spread target]
  | .shorthand fallback :: rest => (memberTargets? rest).map (.group fallback :: ·)
  | .property key value :: rest =>
    match fallbackTarget? value, memberTargets? rest with
    | some target, some targets => some (.property key target :: targets)
    | _, _ => none
  | _ :: _ => none

end

end Node

end ScriptBundler.Script
