import ScriptBundler.Script.Grammar.Markup

/-!
# Expressions

The rules for expressions, from values without operators up to lists with commas.  A parenthesis or an angle bracket
may open the parameters of an arrow function; where the first tokens do not decide, the parameters are tried.
-/

namespace ScriptBundler.Script.Grammar

/-- The operators that assign. -/
def assignmentMarks : List String :=
  ["=", "+=", "-=", "*=", "/=", "%=", "**=", "<<=", ">>=", ">>>=", "&=", "|=", "^=", "&&=", "||=", "??="]

section
variable (sub : Rules)

/-- An expression, with its parts in order if commas join several. -/
def expression : Reading Node := do
  match ← separated (sub (.assignment true)) with
  | [only] => return only
  | parts => return .group parts

/-! ### Values -/

/-- An expression in parentheses. -/
def parenthesized : Reading Node := do
  expectMark "("
  let (items, trailing) ← inBrackets (itemsUpTo ")" (sub (.assignment true)))
  if trailing then fail
  match items with
  | [] => fail
  | [item] => expectMark ")"; return .parens item
  | items => expectMark ")"; return .parens (.group items)

/-- A load at run time behind the word that asks for it. -/
def lazyLoad : Reading Node := do
  expectMark "("
  if ← atMark ")" then fail
  let parts ← inBrackets do
    let request ← sub (.assignment true)
    if (← eatMark ",") && !(← atMark ")") then
      let options ← sub (.assignment true)
      let _ ← eatMark ","
      return [request, options]
    return [request]
  expectMark ")"
  return .lazyLoad parts

/-- The arguments of a call. -/
def arguments : Reading (List Node) := do
  expectMark "("
  let items ← inBrackets (closedItems ")" do
    if ← eatMark "..." then return .spread (← sub (.assignment true))
    sub (.assignment true))
  return items.1

/-- A template with its substitutions. -/
def template : Reading (List Node) :=
  inBrackets (templateParts (expression sub))

/-- An object built with `new`. -/
def construction : Reading Node := do
  expectWord "new"
  if ← eatMark "." then
    expectWord "target"
    return .leaf
  let callee ← sub .constructed
  let items ← (do if ← atMark "(" then arguments sub else return [])
  return .group (callee :: items)

/-- A value without operators. -/
def value : Reading Node := do
  match (← current).lexeme with
  | .text content => advance; return .text content
  | .numeral => advance; return .leaf
  | .templateWhole | .templateHead => return .group (← template sub)
  | .mark mark =>
    if mark == "(" then parenthesized sub
    else if mark == "[" then array sub
    else if mark == "\x7b" then object sub
    else if mark == "/" || mark == "/=" then asPattern; advance; return .leaf
    else if mark == "@" then
      let marks ← decorators sub
      return .group (marks ++ [← classDefinition sub])
    else if mark == "<" && (← usesMarkup) then advance; sub (.tag false)
    else fail
  | .word word =>
    if word == "function" then function sub false
    else if word == "async" && (← nextOnLineIs (atWord "function")) then advance; function sub true
    else if word == "class" then classDefinition sub
    else if word == "new" then construction sub
    else if ["this", "null", "true", "false", "super"].contains word then advance; return .leaf
    else if word == "import" then
      advance
      if ← atMark "(" then lazyLoad sub
      else if ← eatMark "." then
        if ← eatWord "meta" then return .leaf
        if (← eatWord "source") || (← eatWord "defer") then lazyLoad sub else fail
      else fail
    else return .name (← valueName)
  | _ => fail

/-! ### Members and calls -/

/-- A value with the members and calls read so far. -/
structure Chain where
  node : Node
  /-- The chain ends early if a value on its way is missing. -/
  optional : Bool

/-- A further member of a value. -/
def memberStep (chain : Chain) : Reading (Option Chain) := do
  let node := chain.node
  if (← atMark "?.") && (← nextIs (do
      return (← atAnyWord) || (← atMark "[") ||
        (← lexemeIs fun | .privateName _ => true | lexeme => lexeme.isTemplate))) then
    advance
    if ← atMark "[" then
      advance
      let key ← inBrackets (expression sub)
      expectMark "]"
      return some ⟨.member [node, key], true⟩
    if ← lexemeIs Lexeme.isTemplate then return some ⟨.group (node :: (← template sub)), true⟩
    advance
    return some ⟨.member [node], true⟩
  if ← eatMark "." then
    match (← current).lexeme with
    | .word _ | .privateName _ => advance; return some { chain with node := .member [node] }
    | _ => fail
  if (← atMark "[") && !(← read).inDecorator then
    advance
    let key ← inBrackets (expression sub)
    expectMark "]"
    return some { chain with node := .member [node, key] }
  if ← lexemeIs Lexeme.isTemplate then return some { chain with node := .group (node :: (← template sub)) }
  if ← usesTypes then
    if (← atMark "!") && !(← afterBreak) then
      advance
      return some { chain with node := .typed node [] }
    if ← atOneOf ["<", "<<"] then
      match ← attempt (typeArgumentsInExpression sub) with
      | some types => return some { chain with node := .applied node types }
      | none => return none
  return none

/-- A value with the members behind it. -/
def constructed : Reading Node := do
  let first ← value sub
  return (← iterated (memberStep sub) ⟨first, false⟩).node

/-- A further call of a value, with the members behind it. -/
def callStep (chain : Chain) : Reading (Option Chain) := do
  if ← eatMark "?." then
    let types ← (do
      if (← usesTypes) && (← atOneOf ["<", "<<"]) then
        return ((← attempt (typeArgumentsInExpression sub)).getD [])
      return [])
    if ← lexemeIs Lexeme.isTemplate then
      return some ⟨.group (chain.node :: types ++ (← template sub)), true⟩
    return some (← iterated (memberStep sub) ⟨.call chain.node types (← arguments sub), true⟩)
  if !(← atMark "(") then return none
  let call ← (match chain.node with
    | .applied inner types => return .call inner types (← arguments sub)
    | node => return .call node [] (← arguments sub))
  return some (← iterated (memberStep sub) { chain with node := call })

/-- A value with the members and calls behind it. -/
def chain : Reading Node := do
  let first ← value sub
  let members ← iterated (memberStep sub) ⟨first, false⟩
  let calls ← iterated (callStep sub) members
  return if calls.optional then .group [calls.node] else calls.node

/-! ### Operators -/

/-- Whether `await` is an operator at this place: in an asynchronous function always, elsewhere before an operand on the
same line. -/
def atAwait : Reading Bool := do
  if !(← atWord "await") then return false
  if (← read).inAsync then return true
  nextOnLineIs (lexemeIs fun
    | .word _ | .text _ | .numeral | .templateWhole | .templateHead => true
    | _ => false)

/-- An operand with the operators before and behind it. -/
def operand : Reading Node := do
  if (← atOneOf ["+", "-", "~", "!"]) || (← atOneWordOf ["typeof", "void", "delete"]) then
    advance
    return .group [← sub .operand]
  if ← atAwait then
    advance
    return .group [← under (fun c => { c with inAsync := true }) (sub .operand)]
  if ← atOneOf ["++", "--"] then
    advance
    let target ← sub .operand
    if target.assignable then return .group [target] else fail
  if ← atMark "<" then
    advance
    if ← usesMarkup then return (← sub (.tag false))
    if !(← usesTypes) then fail
    let type ← sub .type
    expectMark ">"
    return .typed (← sub .operand) [type]
  let target ← chain sub
  if (← atOneOf ["++", "--"]) && !(← afterBreak) then
    if !target.assignable then fail
    advance
    return .group [target]
  return target

/-- An operator with its right operand, if one that binds tighter than `level` stands here. -/
def operatorStep (level : Nat) (left : Node) : Reading (Option Node) := do
  joinGreater
  let token ← current
  if (← usesTypes) && (token.lexeme == .word "as" || token.lexeme == .word "satisfies") then
    if 8 ≤ level || token.afterBreak then return none
    advance
    return some (.typed left [← sub .type])
  match operatorLevel? token.lexeme with
  | none => return none
  | some strength =>
    if strength < level || (strength == level && strength != 12) then return none
    if token.lexeme == .word "in" && (← read).withoutIn then return none
    advance
    return some (.group [left, ← sub (.binary strength)])

/-- Operands joined by operators that bind tighter than `level`. -/
def binary (level : Nat) : Reading Node := do
  let first ← (do
    match (← current).lexeme with
    | .privateName _ =>
      advance
      expectWord "in"
      return .group [← sub (.binary 8)]
    | _ => sub .operand)
  iterated (operatorStep sub level) first

/-! ### Arrow functions -/

/-- What the first tokens tell about an arrow function. -/
inductive Guess
  | yes
  | no
  | perhaps

/-- What the tokens at a parenthesis tell about an arrow function. -/
def guessAtParenthesis : Reading Guess := do
  advance
  if ← eatMark ")" then
    if (← atMark ":") && (← usesTypes) then return .perhaps
    return if ← atOneOf ["=>", "\x7b"] then .yes else .no
  if (← atMark "[") || (← atMark "\x7b") then return .perhaps
  if ← eatMark "..." then
    return if (← atName) || (← atMark "[") || (← atMark "\x7b") then .yes else .no
  if ← lexemeIs (fun | .word word => modifierWords.contains word && word != "async" | _ => false) then
    if ← nextIs (do return (← atName) && !(← atWord "as")) then return .yes
  if !(← atName) && !(← atWord "this") then return .no
  advance
  if ← atMark ":" then return .yes
  if ← eatMark "?" then
    return if ← atOneOf [":", ",", "=", ")"] then .yes else .no
  return if ← atOneOf [",", "=", ")"] then .perhaps else .no

/-- What the tokens at an angle bracket tell about an arrow function. -/
def guessAtAngle : Reading Guess := do
  advance
  if !(← atName) && !(← atWord "const") then return .no
  if !(← usesMarkup) then return .perhaps
  let _ ← eatWord "const"
  advance
  if ← eatWord "extends" then
    return if ← atOneOf ["=", ">", "/"] then .no else .yes
  return if (← atMark ",") || (← atMark "=") then .yes else .no

/-- What the tokens at this place tell about an arrow function with parentheses. -/
def guessArrow : Reading Guess := foreseen .no do
  if ← eatWord "async" then
    if ← afterBreak then return .no
  if ← atMark "(" then guessAtParenthesis
  else if (← atMark "<") && (← usesTypes) then guessAtAngle
  else return .no

/-- The head of an arrow function up to its arrow. -/
structure ArrowHead where
  isAsync : Bool
  parts : List Node
  /-- The type of the result is stated. -/
  statesResult : Bool

/-- The head of an arrow function with parentheses. -/
def arrowHead : Reading ArrowHead := do
  let isAsync ← eatWord "async"
  let (names, items) ← under (fun c => { c with inAsync := c.inAsync || isAsync }) do
    let names ← typeParameters sub
    let items ← parameters sub
    return (names, items)
  let result ← resultType sub ":"
  expectMark "=>"
  return ⟨isAsync, names ++ items ++ result, !result.isEmpty⟩

/-- The body of an arrow function. -/
def arrowBody (isAsync mayStateResult : Bool) : Reading Node := do
  if ← atMark "\x7b" then inFunction isAsync false (block sub)
  else under (fun c => { c with inAsync := isAsync, inGenerator := false }) (sub (.assignment mayStateResult))

/-- An arrow function with parentheses, if one stands here. -/
def arrowInParentheses? (mayStateResult : Bool) : Reading (Option Node) := do
  match ← guessArrow with
  | .no => return none
  | .yes =>
    let head ← arrowHead sub
    return some (.group (head.parts ++ [← arrowBody sub head.isAsync true]))
  | .perhaps =>
    let start ← get
    match ← attempt (arrowHead sub) with
    | none => return none
    | some head =>
      let body ← arrowBody sub head.isAsync mayStateResult
      if !mayStateResult && head.statesResult && !(← atMark ":") then
        set start
        return none
      return some (.group (head.parts ++ [body]))

/-- Whether an asynchronous arrow function with one bare name stands here. -/
def atAsyncArrow : Reading Bool := do
  if !(← atWord "async") then return false
  nextOnLineIs do
    if !(← atName) then return false
    nextOnLineIs (atMark "=>")

/-! ### Assignments -/

/-- The operand of `yield`. -/
def yielded : Reading Node := do
  expectWord "yield"
  if ← afterBreak then return .leaf
  let delegates ← eatMark "*"
  if !delegates then
    if (← atEnd) || (← atOneOf [";", "]", ")", "\x7d", ":", ","]) || (← atWord "in") then return .leaf
  return .group [← sub (.assignment true)]

/-- An expression without a comma. -/
def assignment (mayStateResult : Bool) : Reading Node := do
  if (← atWord "yield") && (← read).inGenerator then return (← yielded sub)
  if let some arrow ← arrowInParentheses? sub mayStateResult then return arrow
  if ← atAsyncArrow then
    advance
    advance
    expectMark "=>"
    return .group [← arrowBody sub true mayStateResult]
  let left ← sub (.binary 0)
  match left, (← current).lexeme with
  | .name _, .mark "=>" =>
    advance
    return .group [← arrowBody sub false mayStateResult]
  | _, .mark "=" =>
    match left.asTarget? with
    | none => fail
    | some target =>
      advance
      return .assign target (← sub (.assignment mayStateResult))
  | _, .mark "?" =>
    advance
    let yes ← under (fun c => { c with withoutIn := false }) (sub (.assignment false))
    expectMark ":"
    let no ← sub (.assignment mayStateResult)
    return .group [left, yes, no]
  | _, .mark mark =>
    if assignmentMarks.contains mark then
      if !left.assignable then fail
      advance
      return .group [left, ← sub (.assignment mayStateResult)]
    else return left
  | _, _ => return left

end

end ScriptBundler.Script.Grammar
