import ScriptBundler.Script.Grammar.Expression

/-!
# Declarations

The rules for declarations of values and types, and for the imports and exports of a module.
-/

namespace ScriptBundler.Script.Grammar

section
variable (sub : Rules)

/-! ### Values -/

/-- One declared pattern with its type and value. -/
def declarator : Reading Node := do
  let target ← sub .pattern
  if (← usesTypes) && !(← afterBreak) then let _ ← eatMark "!"
  let type ← typeBehindColon sub
  let value ← (do if ← eatMark "=" then return [← sub (.assignment true)] else return [])
  return .group (target :: type ++ value)

/-- Declared patterns behind the word that declares them. -/
def declarators : Reading Node := return .group (← separated (declarator sub))

/-- A declaration of values from its first word on. -/
def valueDeclaration : Reading Node := do
  advance
  let items ← declarators sub
  endStatement
  return items

/-- Whether `using` declares a value at this place. -/
def atUsing : Reading Bool := do
  return (← atWord "using") && (← nextOnLineIs (do return (← atName) && !(← atWord "of")))

/-- Whether `await using` declares a value at this place. -/
def atAwaitUsing : Reading Bool := do
  return (← atWord "await") && (← nextOnLineIs (do
    return (← atWord "using") && (← nextOnLineIs atName)))

/-! ### Types -/

/-- An interface from its first word on. -/
def interface : Reading Node := do
  expectWord "interface"
  let _ ← valueName
  let names ← typeParameters sub
  let above ← heritage sub
  return .group (names ++ above.parents.flatten ++ above.duties ++ [← typeMembers sub])

/-- A named type from its first word on. -/
def typeAlias : Reading Node := do
  expectWord "type"
  let _ ← valueName
  let names ← typeParameters sub
  expectMark "="
  let type ← sub .type
  endStatement
  return .group (names ++ [type])

/-- A member of an enumeration. -/
def enumMember : Reading Node := do
  match (← current).lexeme with
  | .word _ | .text _ | .templateWhole => advance
  | .mark "[" =>
    advance
    match (← current).lexeme with
    | .text _ | .templateWhole => advance
    | _ => fail
    expectMark "]"
  | _ => fail
  return .group (← initializer sub)

/-- An enumeration from its first word on. -/
def enumeration : Reading Node := do
  expectWord "enum"
  let _ ← valueName
  expectMark "\x7b"
  let items ← inBrackets (closedItems "\x7d" (enumMember sub))
  return .group items.1

/-- A named space of declarations from its first word on. -/
def space : Reading Node := do
  advance
  match (← current).lexeme with
  | .text _ => advance
  | _ =>
    let _ ← valueName
    let _ ← repeated do if ← eatMark "." then let _ ← anyWord; return some () else return none
  if ← atMark "\x7b" then block sub
  else
    endStatement
    return .leaf

/-- Whether a declaration of the typed dialect starts at this place. -/
def atTypedDeclaration : Reading Bool := foreseen false do
  let _ ← repeated do
    if ← atWord "static" then advance; return some ()
    if ← atOneWordOf ["abstract", "accessor", "async", "declare", "private", "protected", "public", "readonly"] then
      advance
      if ← afterBreak then fail
      return some ()
    return none
  if ← atOneWordOf ["var", "let", "const", "function", "class", "enum"] then return true
  if ← atOneWordOf ["interface", "type"] then
    advance
    return (← atName) && !(← afterBreak)
  if ← atOneWordOf ["module", "namespace"] then
    advance
    return !(← afterBreak) && ((← atName) || (← lexemeIs fun | .text _ => true | _ => false))
  if ← atWord "global" then
    advance
    return (← atMark "\x7b") || (← atName) || (← atWord "export")
  if ← atWord "import" then
    advance
    return (← atName) || (← atMark "*") || (← atMark "\x7b") || (← lexemeIs fun | .text _ => true | _ => false)
  if ← atWord "export" then
    advance
    return (← atOneOf ["=", "*", "\x7b", "@"]) || (← atWord "default") || (← atWord "as")
  return false

/-- The words that describe a declaration of the typed dialect. -/
def declarationWords : List String :=
  ["declare", "abstract", "accessor", "private", "protected", "public", "readonly", "static"]

/-- Skips the words that describe the declaration. -/
def skipDeclarationWords : Reading Unit := do
  if ← usesTypes then
    let _ ← repeated do
      if (← atOneWordOf declarationWords) && (← nextOnLineIs atAnyWord) then advance; return some ()
      return none

/-! ### Names of imports and exports -/

/-- The name in a list of imports or exports: `some` word or none for a quoted text. -/
def listedName : Reading (Option String) := do
  match (← current).lexeme with
  | .word word => advance; return some word
  | .text _ => advance; return none
  | _ => fail

/-- Whether a name of an import or export may stand here. -/
def atListedName : Reading Bool :=
  lexemeIs fun
    | .word _ | .text _ => true
    | _ => false

/-- An item of a list of imports or exports, and the name that it binds, if that is a word. -/
def listed : Reading (Binding × Option String) := do
  let first ← listedName
  if (← usesTypes) && first == some "type" then
    if ← eatWord "as" then
      if ← eatWord "as" then
        if ← atListedName then return (⟨true⟩, ← listedName)
        return (⟨false⟩, some "as")
      if ← atListedName then return (⟨false⟩, ← listedName)
      return (⟨true⟩, some "as")
    if ← atListedName then
      let name ← listedName
      if ← eatWord "as" then return (⟨true⟩, ← listedName)
      return (⟨true⟩, name)
    return (⟨false⟩, first)
  if ← eatWord "as" then return (⟨false⟩, ← listedName)
  return (⟨false⟩, first)

/-- An item of a list of imports, which must bind a name of a value. -/
def importedName : Reading Binding := do
  let (binding, name) ← listed
  match name with
  | some word => if reservedWords.contains word then fail else return binding
  | none => fail

/-- Attributes of a request. -/
def requestAttributes : Reading Unit := do
  if (← atWord "with") || ((← atWord "assert") && !(← afterBreak)) then
    advance
    expectMark "\x7b"
    let _ ← closedItems "\x7d" do
      let _ ← listedName
      expectMark ":"
      let _ ← quoted
      return
    return

/-- The request behind `from`, with its attributes. -/
def requestFrom : Reading String := do
  expectWord "from"
  let request ← quoted
  requestAttributes
  return request

/-! ### Imports -/

/-- The names that an import binds behind its default. -/
def importList : Reading (List Binding) := do
  if ← eatMark "*" then
    expectWord "as"
    let _ ← valueName
    return [⟨false⟩]
  expectMark "\x7b"
  return (← closedItems "\x7d" importedName).1

/-- What an import names by another name, behind the equals sign. -/
def importAlias : Reading Node := do
  expectMark "="
  if (← atWord "require") && (← nextIs (atMark "(")) then
    advance
    advance
    let _ ← quoted
    expectMark ")"
  else dottedName
  endStatement
  return .leaf

/-- Whether the word taken before this place marks the import as one of types. -/
def marksTypes (word : Option String) : Reading Bool := do
  if !(← usesTypes) || word != some "type" then return false
  if ← atWord "from" then
    if !(← nextIs (do return (← atWord "from") || (← atMark "="))) then return false
  return (← atName) || (← atMark "*") || (← atMark "\x7b")

/-- Whether the word taken before this place marks the time of the load. -/
def marksTime (word : Option String) : Reading Bool := do
  if word == some "defer" then return (← atMark "*")
  if word == some "source" then
    if ← atWord "from" then nextIs (atWord "from") else atName
  else return false

/-- An import declaration from its first word on; the flag tells that it gives a name to a name. -/
def importDeclaration : Reading (Node × Bool) := do
  expectWord "import"
  let word ← (do if ← atName then return some (← valueName) else return none)
  let typeOnly ← marksTypes word
  let marked ← (do if typeOnly then return true else marksTime word)
  let name ← (do
    if marked then
      if ← atName then return some (← valueName) else return none
    else return word)
  if name.isSome && (← usesTypes) && (← atMark "=") then return (← importAlias, true)
  if name.isNone && !marked then
    if ← lexemeIs (fun | .text _ => true | _ => false) then
      let request ← quoted
      requestAttributes
      endStatement
      return (.importDecl false none request, false)
  let bindings ← (do
    if name.isSome then
      if ← eatMark "," then return ⟨false⟩ :: (← importList)
      return [⟨false⟩]
    importList)
  let request ← requestFrom
  endStatement
  return (.importDecl typeOnly (some bindings) request, false)

/-! ### Declarations of a module -/

/-- A declaration behind the words that describe it. -/
def declaration : Reading Node := do
  match (← current).lexeme with
  | .word word =>
    if word == "function" then function sub false
    else if word == "async" && (← nextOnLineIs (atWord "function")) then advance; function sub true
    else if word == "class" then classDefinition sub
    else if word == "const" && (← usesTypes) && (← nextIs (atWord "enum")) then advance; enumeration sub
    else if ["var", "let", "const"].contains word then valueDeclaration sub
    else if ← atUsing then valueDeclaration sub
    else if !(← usesTypes) then fail
    else if word == "interface" then interface sub
    else if word == "type" then typeAlias sub
    else if word == "enum" then enumeration sub
    else if word == "namespace" || word == "module" then space sub
    else if word == "global" then advance; block sub
    else if word == "import" then return (← importDeclaration).1
    else fail
  | _ => fail

/-- The value that a module exports as its default. -/
def defaultExport : Reading Node := do
  match (← current).lexeme with
  | .word word =>
    if word == "function" then return (← function sub false)
    if word == "async" && (← nextOnLineIs (atWord "function")) then advance; return (← function sub true)
    if word == "class" then return (← classDefinition sub)
    if ← usesTypes then
      if word == "abstract" && (← nextOnLineIs (atWord "class")) then advance; return (← classDefinition sub)
      if word == "interface" && (← nextOnLineIs atName) then return (← interface sub)
  | .mark "@" =>
    let marks ← decorators sub
    if (← usesTypes) && (← atWord "abstract") then advance
    return .group (marks ++ [← classDefinition sub])
  | _ => pure ()
  let exported ← sub (.assignment true)
  endStatement
  return exported

/-- The names that a module exports, in braces, perhaps from another module. -/
def exportList (typeOnly : Bool) : Reading Node := do
  expectMark "\x7b"
  let items ← closedItems "\x7d" listed
  let source ← (do if ← atWord "from" then return some (← requestFrom) else return none)
  endStatement
  return .exportList typeOnly (items.1.map (·.1)) source

/-- An export of all that another module exports. -/
def exportAll (typeOnly : Bool) : Reading Node := do
  expectMark "*"
  if ← eatWord "as" then let _ ← listedName
  let request ← requestFrom
  endStatement
  return .exportAll typeOnly request

/-- An export declaration behind the word `export`. -/
def exported : Reading Node := do
  if ← atMark "*" then return (← exportAll false)
  if ← atMark "\x7b" then return (← exportList false)
  if ← eatWord "default" then return (← defaultExport sub)
  if ← atWord "import" then
    match ← importDeclaration with
    | (item, true) => return item
    | _ => fail
  if ← atMark "@" then
    let marks ← decorators sub
    if (← usesTypes) && (← atWord "abstract") then advance
    return .group (marks ++ [← classDefinition sub])
  if ← usesTypes then
    if ← eatMark "=" then
      let value ← expression sub
      endStatement
      return value
    if (← atWord "as") && (← nextIs (atWord "namespace")) then
      advance
      advance
      let _ ← valueName
      endStatement
      return .leaf
    if ← atWord "type" then
      if ← nextIs (atMark "\x7b") then advance; return (← exportList true)
      if ← nextIs (atMark "*") then advance; return (← exportAll true)
  skipDeclarationWords
  declaration sub

end

end ScriptBundler.Script.Grammar
