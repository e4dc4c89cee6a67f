import ScriptBundler.Script.Grammar.Basic

/-!
# Names, modifiers and bindings

The rules for the names of members, for the words that modify a declaration, and for the patterns and parameters that
bind names.
-/

namespace ScriptBundler.Script.Grammar

/-! ### Modifiers -/

/-- Whether the token may stand behind a modifier. -/
def mayFollowModifier : Reading Bool :=
  lexemeIs fun
    | .privateName _ => true
    | .mark mark => ["[", "\x7b", "*", "..."].contains mark
    | lexeme => lexeme.isMemberName

/-- Whether the token may stand behind `get` or `set`. -/
def mayFollowAccessor : Reading Bool :=
  lexemeIs fun
    | .privateName _ => true
    | .mark mark => mark == "["
    | lexeme => lexeme.isMemberName

/-- Whether the word at this place modifies what follows it. -/
def atModifier (constAllowed stopAtBlock : Bool) (seen : List String) : Reading Bool := do
  match (← current).lexeme with
  | .word word =>
    if !modifierWords.contains word then return false
    if word == "const" then
      if constAllowed then nextOnLineIs mayFollowModifier else nextIs (atWord "enum")
    else if word == "static" then
      if seen.contains "static" then return false
      if stopAtBlock && (← nextIs (atMark "\x7b")) then return false
      nextIs mayFollowModifier
    else nextOnLineIs mayFollowModifier
  | _ => return false

/-- The modifiers at this place. -/
def modifiers (constAllowed stopAtBlock : Bool) : Reading (List String) :=
  iterated (fun seen => do
    if ← atModifier constAllowed stopAtBlock seen then return some (seen ++ [← anyWord])
    return none) []

/-- Takes `get` or `set` if it makes an accessor of what follows. -/
def eatAccessorWord (word : String) : Reading Bool := do
  if (← atWord word) && (← nextIs mayFollowAccessor) then advance; return true
  return false

section
variable (sub : Rules)

/-! ### Names of members -/

/-- An expression in brackets that names a member. -/
def computedName : Reading Node := do
  expectMark "["
  let key ← inBrackets (sub (.assignment true))
  expectMark "]"
  return key

/-- The name of a member; the parts are those of a computed name. -/
def memberName : Reading (List Node) := do
  match (← current).lexeme with
  | .word _ | .text _ | .numeral | .privateName _ => advance; return []
  | .mark "[" => return [← computedName sub]
  | _ => fail

/-! ### Types of names -/

/-- A type behind a colon, where types are written. -/
def typeBehindColon : Reading (List Node) := do
  if (← usesTypes) && (← eatMark ":") then return [← under (fun c => { c with withoutConditional := false }) (sub .type)]
  return []

/-- A value behind `=`. -/
def initializer : Reading (List Node) := do
  if ← eatMark "=" then return [← under (fun c => { c with withoutIn := false, inDecorator := false }) (sub (.assignment true))]
  return []

/-! ### Patterns -/

/-- A pattern with its type and fallback. -/
def patternWithFallback (mayBeMissing : Bool) : Reading Node := do
  let target ← sub .pattern
  if mayBeMissing && (← usesTypes) then let _ ← eatMark "?"
  let type ← typeBehindColon sub
  let fallback ← initializer sub
  return .group (target :: type ++ fallback)

/-- A pattern that gathers the rest. -/
def restPattern : Reading Node := do
  expectMark "..."
  let target ← sub .pattern
  let type ← typeBehindColon sub
  let fallback ← initializer sub
  return .group (target :: type ++ fallback)

/-- A member of an object pattern. -/
def memberPattern : Reading Node := do
  let plain ← atName
  let key ← memberName sub
  if plain && !(← atMark ":") then
    return .group (← initializer sub)
  expectMark ":"
  let target ← patternWithFallback sub false
  return .group (key ++ [target])

/-- Names to be bound: one name, or the names inside an object or an array. -/
def pattern : Reading Node := do
  if ← eatMark "\x7b" then
    return .group (← inBrackets (closedItemsWithRest "\x7d" (memberPattern sub) (restPattern sub)))
  if ← eatMark "[" then
    return .group (← inBrackets (closedItemsWithRest "]" (do
      if ← atMark "," then return .leaf
      patternWithFallback sub false) (restPattern sub)))
  let _ ← valueName
  return .leaf

/-! ### Decorators and parameters -/

/-- The decorators at this place. -/
def decorators : Reading (List Node) :=
  repeated do
    if ← eatMark "@" then
      return some (← under (fun c => { c with inDecorator := true }) (sub .chain))
    return none

/-- A parameter of a function. -/
def parameter : Reading Node := do
  let marks ← decorators sub
  let _ ← modifiers false false
  let target ← patternWithFallback sub true
  return .group (marks ++ [target])

/-- A parameter that gathers the rest. -/
def restParameter : Reading Node := do
  restPattern sub

/-- The parameters of a function in their parentheses; where types are written, the first may state the type of
`this`. -/
def parameters : Reading (List Node) := do
  expectMark "("
  let receiver ← (do
    if (← usesTypes) && (← atWord "this") then
      advance
      let type ← typeBehindColon sub
      if !(← atMark ")") then expectMark ","
      return type
    else return [])
  let items ← inBrackets (closedItemsWithRest ")" (parameter sub) (restParameter sub))
  return receiver ++ items

end

end ScriptBundler.Script.Grammar
