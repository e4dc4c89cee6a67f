import ScriptBundler.Script.Grammar.Types

/-!
# Functions, classes and objects

The rules for what holds statements or members inside an expression: functions, methods, classes and object
literals.
-/

namespace ScriptBundler.Script.Grammar

section
variable (sub : Rules)

/-- Statements up to a closing brace, which is taken. -/
def statementsToBrace : Reading (List Node) := do
  let items ← repeated do
    if (← atMark "\x7d") || (← atEnd) then return none
    return some (← sub (.statement false))
  expectMark "\x7d"
  return items

/-- Statements in braces. -/
def block : Reading Node := do
  expectMark "\x7b"
  return .group (← statementsToBrace sub)

/-- The parameters, result and body of a function; where types are written, the body may be missing. -/
def callable (isAsync isGenerator : Bool) : Reading Node :=
  inFunction isAsync isGenerator do
    let head ← signature sub
    if ← atMark "\x7b" then return .group (head ++ [← block sub])
    if !(← usesTypes) then fail
    endStatement
    return .group head

/-- A function from the word `function` on. -/
def function (isAsync : Bool) : Reading Node := do
  expectWord "function"
  let isGenerator ← eatMark "*"
  if ← atName then let _ ← valueName
  callable sub isAsync isGenerator

/-! ### Objects -/

/-- Whether the word at this place may stand alone for a member of its name. -/
def atShorthand : Reading Bool := do
  let context ← read
  lexemeIs fun
    | .word word =>
      !reservedWords.contains word && !(context.inAsync && word == "await") &&
        !(context.inGenerator && word == "yield")
    | _ => false

/-- A member of an object literal. -/
def objectMember : Reading Node := do
  if ← eatMark "..." then return .spread (← sub (.assignment true))
  let words ← modifiers false false
  if (← eatAccessorWord "get") || (← eatAccessorWord "set") then
    let key ← memberName sub
    return .property key (← callable sub false false)
  let isGenerator ← eatMark "*"
  let plain ← atShorthand
  let key ← memberName sub
  if isGenerator || (← atOneOf ["(", "<"]) then
    return .property key (← callable sub (words.contains "async") isGenerator)
  if plain && !(← atMark ":") then return .shorthand (← initializer sub)
  expectMark ":"
  return .property key (← sub (.assignment true))

/-- An object literal. -/
def object : Reading Node := do
  expectMark "\x7b"
  let items ← inBrackets (closedItems "\x7d" (objectMember sub))
  return .object items.1

/-- An array literal. -/
def array : Reading Node := do
  expectMark "["
  let items ← inBrackets (closedItems "]" do
    if ← atMark "," then return .hole
    if ← eatMark "..." then return .spread (← sub (.assignment true))
    sub (.assignment true))
  return .array items.1

/-! ### Classes -/

/-- A member of a class. -/
def classMember : Reading Node := do
  let marks ← decorators sub
  let words ← modifiers true true
  if (← atWord "static") && (← nextIs (atMark "\x7b")) then
    advance
    return .group (marks ++ [← inFunction false false (block sub)])
  if (← eatAccessorWord "get") || (← eatAccessorWord "set") then
    let key ← memberName sub
    return .group (marks ++ key ++ [← callable sub false false])
  if (← usesTypes) && (← opensIndex) then return .group (marks ++ [← indexMember sub])
  let isGenerator ← eatMark "*"
  let key ← memberName sub
  if ← usesTypes then let _ ← eatMark "?"
  if isGenerator || (← atOneOf ["(", "<"]) then
    return .group (marks ++ key ++ [← callable sub (words.contains "async") isGenerator])
  if ← usesTypes then let _ ← eatMark "!"
  let type ← typeBehindColon sub
  let value ← inFunction false false (initializer sub)
  endStatement
  return .group (marks ++ key ++ type ++ value)

/-- A parent behind `extends`, with its type arguments. -/
def parent : Reading (List Node) := do
  match ← sub .chain with
  | .applied inner types => return inner :: types
  | value => return value :: (← typeArgumentsOnLine sub)

/-- The clauses between the name and the body of a class. -/
structure Heritage where
  /-- What stands behind the last `extends`, parent by parent. -/
  parents : List (List Node) := []
  /-- What stands behind `implements`. -/
  duties : List Node := []

def heritage : Reading Heritage := do
  let clauses ← repeated do
    if ← eatWord "extends" then
      let parents ← separated (parent sub)
      return some fun h : Heritage => { h with parents }
    if (← usesTypes) && (← eatWord "implements") then
      let duties ← separated (typeReference sub)
      return some fun h : Heritage => { h with duties := h.duties ++ duties }
    return none
  return clauses.foldl (fun h clause => clause h) {}

/-- A class from the word `class` on. -/
def classDefinition : Reading Node := do
  expectWord "class"
  if (← atName) && !((← atWord "implements") && (← nextIs atAnyWord)) then let _ ← valueName
  let names ← typeParameters sub
  let above ← heritage sub
  expectMark "\x7b"
  let members ← under (fun c => { c with inDecorator := false, withoutIn := false }) (repeated do
    let _ ← repeated do if ← eatMark ";" then return some () else return none
    if (← atMark "\x7d") || (← atEnd) then return none
    return some (← classMember sub))
  expectMark "\x7d"
  return .group (names ++ above.parents.head?.getD [] ++ above.duties ++ members)

end

end ScriptBundler.Script.Grammar
