import ScriptBundler.Script.Grammar.Binding

/-!
# Statements about types

The rules for types.  A type loads no module; what the readings give are the expressions that occur inside it, such as
computed names of members.
-/

namespace ScriptBundler.Script.Grammar

/-- Inside brackets of a type the word `extends` continues a type again. -/
def inTypeBrackets {α : Type} (p : Reading α) : Reading α :=
  under (fun c => { c with withoutConditional := false, withoutIn := false, inDecorator := false }) p

/-- Under the word `extends` no further one continues the type. -/
def underExtends {α : Type} (p : Reading α) : Reading α :=
  under (fun c => { c with withoutConditional := true }) p

/-- Whether a type may start at this place. -/
def startsType : Reading Bool := do
  match (← current).lexeme with
  | .word word =>
    return !reservedWords.contains word ||
      ["void", "null", "this", "typeof", "import", "new", "true", "false", "function"].contains word
  | .mark mark =>
    if mark == "-" then nextIs (lexemeIs (· == .numeral))
    else return ["(", "[", "\x7b", "<", "|", "&", "*", "?", "!", "..."].contains mark
  | .text _ | .numeral | .templateWhole | .templateHead => return true
  | _ => return false

/-- Whether the parenthesis at this place can only open the parameters of a function type. -/
def opensFunctionType (sub : Rules) : Reading Bool :=
  ahead do
    advance
    if (← atMark ")") || (← atMark "...") then return true
    if ← lexemeIs (fun | .word word => modifierWords.contains word | _ => false) then
      let _ ← modifiers false false
    let named ← (do
      if (← atName) || (← atWord "this") then advance; return true
      if (← atMark "[") || (← atMark "\x7b") then
        let _ ← sub .pattern
        return true
      return false)
    if !named then return false
    if ← atOneOf [":", ",", "?", "="] then return true
    if ← eatMark ")" then return (← atMark "=>")
    return false

section
variable (sub : Rules)

/-- The types in angle brackets that something is applied to. -/
def typeArguments : Reading (List Node) := do
  splitLess
  expectMark "<"
  let items ← inTypeBrackets (closedItems ">" (sub .type))
  return items.1

/-- Types in angle brackets, if they stand here on the same line. -/
def typeArgumentsOnLine : Reading (List Node) := do
  if !(← afterBreak) && (← atOneOf ["<", "<<"]) then typeArguments sub else return []

/-- One name that a declaration abstracts over. -/
def typeParameter : Reading Node := do
  let _ ← modifiers true false
  let _ ← valueName
  let bound ← (do if ← eatWord "extends" then return [← sub .type] else return [])
  let fallback ← (do if ← eatMark "=" then return [← sub .type] else return [])
  return .group (bound ++ fallback)

/-- The names in angle brackets that a declaration abstracts over, where types are written. -/
def typeParameters : Reading (List Node) := do
  if (← usesTypes) && (← atMark "<") then
    advance
    let items ← inTypeBrackets (closedItems ">" (typeParameter sub))
    return items.1
  return []

/-- A type, or a statement of what the result tells about a value. -/
def typeOrPredicate : Reading Node := do
  let _ ← attempt do
    let _ ← anyWord
    if ← afterBreak then fail
    expectWord "is"
  sub .type

/-- The type of a result behind `mark`, where types are written. -/
def resultType (mark : String) : Reading (List Node) := do
  if (← usesTypes) && (← eatMark mark) then
    return [← under (fun c => { c with withoutConditional := false }) (typeOrPredicate sub)]
  return []

/-- A dotted name. -/
def dottedName : Reading Unit := do
  let _ ← anyWord
  let _ ← repeated do
    if ← eatMark "." then
      match (← current).lexeme with
      | .word _ | .privateName _ => advance; return some ()
      | _ => fail
    return none
  return

/-- A named type with what it is applied to. -/
def typeReference : Reading Node := do
  dottedName
  return .group (← typeArgumentsOnLine sub)

/-- The end of a member of a type. -/
def endTypeMember : Reading Unit := do
  if ← eatMark "," then return
  endStatement

/-- Whether the bracket at this place opens the key of an index. -/
def opensIndex : Reading Bool :=
  ahead do
    expectMark "["
    if (← atMark "]") || (← atMark "...") then return true
    if ← lexemeIs (fun | .word word => modifierWords.contains word | _ => false) then
      advance
      if ← atName then return true
    else
      if !(← atName) then return false
      advance
    if (← atMark ":") || (← atMark ",") then return true
    if !(← eatMark "?") then return false
    atOneOf [":", ",", "]"]

/-- A member that stands for every key of a type. -/
def indexMember : Reading Node := do
  expectMark "["
  let items ← inTypeBrackets (closedItems "]" (do
    let _ ← anyWord
    let _ ← eatMark "?"
    return Node.group (← typeBehindColon sub)))
  let type ← typeBehindColon sub
  endTypeMember
  return .group (items.1 ++ type)

/-- The parameters and result of a function member. -/
def signature : Reading (List Node) := do
  let names ← typeParameters sub
  let items ← parameters sub
  let result ← resultType sub ":"
  return names ++ items ++ result

/-- A member of an object type. -/
def typeMember : Reading Node := do
  if ← atOneOf ["(", "<"] then
    let parts ← signature sub
    endTypeMember
    return .group parts
  if (← atWord "new") && (← nextIs (atOneOf ["(", "<"])) then
    advance
    let parts ← signature sub
    endTypeMember
    return .group parts
  let _ ← modifiers false false
  if (← eatAccessorWord "get") || (← eatAccessorWord "set") then
    let key ← memberName sub
    let parts ← signature sub
    endTypeMember
    return .group (key ++ parts)
  if ← opensIndex then return (← indexMember sub)
  let key ← memberName sub
  let _ ← eatMark "?"
  if ← atOneOf ["(", "<"] then
    let parts ← signature sub
    endTypeMember
    return .group (key ++ parts)
  let type ← typeBehindColon sub
  endTypeMember
  return .group (key ++ type)

/-- The members of an object type in their braces. -/
def typeMembers : Reading Node := do
  expectMark "\x7b"
  let items ← inTypeBrackets (repeated do
    if ← atMark "\x7d" then return none
    return some (← typeMember sub))
  expectMark "\x7d"
  return .group items

/-- Whether the brace at this place opens a type that maps the keys of another. -/
def opensMappedType : Reading Bool :=
  ahead do
    advance
    if (← eatMark "+") || (← eatMark "-") then return (← atWord "readonly")
    let _ ← eatWord "readonly"
    expectMark "["
    let _ ← anyWord
    atWord "in"

/-- A type that maps the keys of another. -/
def mappedType : Reading Node := do
  expectMark "\x7b"
  if (← eatMark "+") || (← eatMark "-") then expectWord "readonly"
  else let _ ← eatWord "readonly"
  expectMark "["
  let _ ← anyWord
  expectWord "in"
  let keys ← inTypeBrackets (sub .type)
  let renamed ← (do if ← eatWord "as" then return [← inTypeBrackets (sub .type)] else return [])
  expectMark "]"
  if (← eatMark "+") || (← eatMark "-") then expectMark "?"
  else let _ ← eatMark "?"
  let type ← (do if ← eatMark ":" then return [← inTypeBrackets (sub .type)] else return [])
  let _ ← eatMark ";"
  let _ ← eatMark ","
  expectMark "\x7d"
  return .group (keys :: renamed ++ type)

/-- Whether the item of a tuple at this place has a name. -/
def namesTupleItem : Reading Bool :=
  ahead do
    let _ ← eatMark "..."
    let _ ← anyWord
    if ← atMark ":" then return true
    if ← eatMark "?" then return (← atMark ":")
    return false

/-- An item of a tuple type. -/
def tupleItem : Reading Node := do
  if ← namesTupleItem then
    let _ ← eatMark "..."
    let _ ← anyWord
    let _ ← eatMark "?"
    expectMark ":"
  let _ ← eatMark "..."
  let type ← sub .type
  let _ ← eatMark "?"
  return type

/-- A type that another module exports. -/
def importedType : Reading Node := do
  expectWord "import"
  expectMark "("
  let request ← inTypeBrackets (sub .type)
  let options ← (do
    if ← eatMark "," then
      if ← atMark ")" then return []
      let options ← inBrackets (sub (.assignment true))
      let _ ← eatMark ","
      return [options]
    return [])
  expectMark ")"
  if ← eatMark "." then dottedName
  return .group (request :: options ++ (← typeArgumentsOnLine sub))

/-- The substitutions of a template, each read by `item`. -/
def templateParts (item : Reading Node) : Reading (List Node) := do
  if (← current).lexeme == .templateWhole then advance; return []
  if (← current).lexeme != .templateHead then fail
  advance
  repeated do
    if (← current).lexeme == .templateTail then advance; return none
    if (← current).lexeme == .templateMiddle then advance
    let part ← item
    asTemplatePart
    return some part

/-- A function type: parameters, an arrow and the type of the result. -/
def functionType : Reading Node := do
  let _ ← eatWord "abstract"
  let _ ← eatWord "new"
  let names ← typeParameters sub
  let items ← parameters sub
  expectMark "=>"
  let result ← typeOrPredicate sub
  return .group (names ++ items ++ [result])

/-- The words that name a type by themselves. -/
def typeWords : List String :=
  ["any", "unknown", "string", "number", "bigint", "symbol", "boolean", "undefined", "never", "object", "intrinsic",
   "null"]

/-- A type without operators around it. A question mark in front allows the value to be missing. -/
def simpleType : Reading Node := do
  match (← current).lexeme with
  | .mark "?" =>
    advance
    if ← atOneOf [",", "\x7d", ")", ">", "=", "|"] then return .leaf else sub .type
  | .text _ | .numeral => advance; return .leaf
  | .templateWhole | .templateHead => return .group (← inTypeBrackets (templateParts (sub .type)))
  | .mark "-" => advance; if (← current).lexeme == .numeral then advance; return .leaf else fail
  | .mark "\x7b" => if ← opensMappedType then mappedType sub else typeMembers sub
  | .mark "[" =>
    advance
    let items ← inTypeBrackets (closedItems "]" (tupleItem sub))
    return .group items.1
  | .mark "(" =>
    advance
    let type ← inTypeBrackets (sub .type)
    expectMark ")"
    return type
  | .word word =>
    if typeWords.contains word && !(← nextIs (atMark ".")) then advance; return .leaf
    if ["true", "false", "void"].contains word then advance; return .leaf
    if word == "this" then
      advance
      if (← atWord "is") && !(← afterBreak) then advance; sub .type
      else return .leaf
    else if word == "typeof" then
      if ← nextIs (atWord "import") then advance; importedType sub
      else
        advance
        dottedName
        return .group (← typeArgumentsOnLine sub)
    else if word == "import" then importedType sub
    else if word == "asserts" && (← nextOnLineIs (do return (← atName) || (← atWord "this"))) then
      advance
      let _ ← anyWord
      if ← eatWord "is" then sub .type else return .leaf
    else typeReference sub
  | _ => fail

/-- A type with what follows it in brackets. Exclamation marks in front forbid the value to be missing. -/
def postfixType : Reading Node := do
  let _ ← repeated do if ← eatMark "!" then return some () else return none
  let first ← simpleType sub
  iterated (fun type => do
    if ← afterBreak then return none
    if ← atMark "[" then
      advance
      if ← startsType then
        let key ← inTypeBrackets (sub .type)
        expectMark "]"
        return some (.group [type, key])
      expectMark "]"
      return some type
    if ← eatMark "!" then return some type
    if ← atMark "?" then
      if ← nextIs startsType then return none
      advance
      return some type
    return none) first

/-- A type with the words that stand before it. -/
def typeOperand : Reading Node := do
  if ← atOneWordOf ["keyof", "unique", "readonly"] then advance; sub .typeOperand
  else if ← atWord "infer" then
    advance
    let _ ← valueName
    let bound ← attempt do
      expectWord "extends"
      let bound ← underExtends (sub .type)
      if (← read).withoutConditional || !(← atMark "?") then return bound
      fail
    return .group bound.toList
  else under (fun c => { c with withoutConditional := false }) (postfixType sub)

/-- Types with one operator between them and perhaps before the first. -/
def typesJoinedBy (mark : String) (item : Reading Node) : Reading Node := do
  let _ ← eatMark mark
  let first ← item
  let more ← repeated do
    if ← eatMark mark then return some (← item)
    return none
  return .group (first :: more)

/-- Types of which a value has one. -/
def unionType : Reading Node :=
  typesJoinedBy "|" (typesJoinedBy "&" (sub .typeOperand))

/-- A type. -/
def type : Reading Node := do
  let function ← (do
    if ← atMark "<" then return true
    if (← atMark "(") && (← opensFunctionType sub) then return true
    if ← atWord "new" then return true
    return (← atWord "abstract") && (← nextIs (atWord "new")))
  if function then return (← functionType sub)
  let tested ← unionType sub
  if (← read).withoutConditional || (← afterBreak) || !(← atWord "extends") then return tested
  advance
  let pattern ← underExtends (sub .type)
  expectMark "?"
  let yes ← under (fun c => { c with withoutConditional := false }) (sub .type)
  expectMark ":"
  let no ← under (fun c => { c with withoutConditional := false }) (sub .type)
  return .group [tested, pattern, yes, no]

/-! ### Types applied inside expressions -/

/-- Whether the token may start an expression. -/
def startsExpression : Reading Bool := do
  match (← current).lexeme with
  | .word word =>
    if word == "import" then nextIs (atOneOf ["(", "<", "."])
    else return !reservedWords.contains word ||
      ["this", "super", "null", "true", "false", "function", "class", "new", "typeof", "void", "delete"].contains word
  | .text _ | .numeral | .templateWhole | .templateHead | .privateName _ => return true
  | .mark mark =>
    return ["(", "[", "\x7b", "/", "/=", "+", "-", "~", "!", "++", "--", "<", "@"].contains mark
  | _ => return false

/-- The operators between two operands with how tight they bind. -/
def operatorLevel? : Lexeme → Option Nat
  | .mark mark =>
    match mark with
    | "??" => some 1
    | "||" => some 2
    | "&&" => some 3
    | "|" => some 4
    | "^" => some 5
    | "&" => some 6
    | "==" | "!=" | "===" | "!==" => some 7
    | "<" | ">" | "<=" | ">=" => some 8
    | "<<" | ">>" | ">>>" => some 9
    | "+" | "-" => some 10
    | "*" | "/" | "%" => some 11
    | "**" => some 12
    | _ => none
  | .word "instanceof" | .word "in" => some 8
  | _ => none

/-- Whether types in angle brackets may be followed by this token in an expression. -/
def mayFollowTypeArguments : Reading Bool := do
  let token ← current
  match token.lexeme with
  | .templateWhole | .templateHead => return true
  | .mark "(" => return true
  | .mark mark =>
    if ["<", ">", "+", "-"].contains mark then return false
    if token.afterBreak || (operatorLevel? token.lexeme).isSome then return true
    return !(← startsExpression)
  | lexeme =>
    if token.afterBreak then return true
    if lexeme == .word "in" && (← read).withoutIn then return !(← startsExpression)
    if (operatorLevel? lexeme).isSome || lexeme == .word "as" || lexeme == .word "satisfies" then return true
    return !(← startsExpression)

/-- Types in angle brackets behind an expression. -/
def typeArgumentsInExpression : Reading (List Node) := do
  if !(← usesTypes) then fail
  splitLess
  expectMark "<"
  let items ← inTypeBrackets (itemsUpTo ">" (sub .type))
  joinGreater
  if ← atMark ">=" then fail
  splitGreater
  expectMark ">"
  if ← mayFollowTypeArguments then return items.1 else fail

end

end ScriptBundler.Script.Grammar
