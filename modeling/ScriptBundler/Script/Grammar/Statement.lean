import ScriptBundler.Script.Grammar.Declaration

/-!
# Statements

The rules for statements, and the reading of a whole script.
-/

namespace ScriptBundler.Script.Grammar

section
variable (sub : Rules)

/-- An expression in the parentheses of a statement. -/
def condition : Reading Node := do
  expectMark "("
  let test ← inBrackets (expression sub)
  expectMark ")"
  return test

/-- An expression as a statement, or a statement with a label. -/
def expressionStatement : Reading Node := do
  let first ← expression sub
  match first with
  | .name _ => if ← eatMark ":" then return (← sub (.statement true))
  | _ => pure ()
  endStatement
  return first

/-- A statement that starts with `let`. -/
def letStatement (alone : Bool) : Reading Node := do
  let opensPattern ← nextIs (do return (← atName) || (← atMark "[") || (← atMark "\x7b"))
  if ← nextIs (do return (← atMark ".") || (← atMark "(")) then return (← expression sub)
  if ← nextIs (do
      match (← current).lexeme with
      | .mark mark => return !(["[", "\x7b"].contains mark)
      | .word word => return word == "in" || word == "instanceof"
      | _ => return false) then return (← expressionStatement sub)
  if alone && !(opensPattern && (← nextIs (atMark "["))) then return (← expressionStatement sub)
  valueDeclaration sub

/-! ### Loops -/

/-- What follows the first part of the head of a counting loop. -/
def countingLoop (start : List Node) : Reading Node := do
  expectMark ";"
  let test ← (do if ← atMark ";" then return [] else return [← inBrackets (expression sub)])
  expectMark ";"
  let step ← (do if ← atMark ")" then return [] else return [← inBrackets (expression sub)])
  expectMark ")"
  return .group (start ++ test ++ step ++ [← sub (.statement true)])

/-- What follows the first part of the head of any loop. -/
def loopFrom (start : Node) (asTarget : Node → Option Node) : Reading Node := do
  if ← atWord "in" then
    match asTarget start with
    | none => fail
    | some target =>
      advance
      let value ← inBrackets (expression sub)
      expectMark ")"
      return .group [target, value, ← sub (.statement true)]
  if ← atWord "of" then
    match asTarget start with
    | none => fail
    | some target =>
      advance
      let value ← inBrackets (sub (.assignment true))
      expectMark ")"
      return .group [target, value, ← sub (.statement true)]
  countingLoop sub [start]

/-- A loop from the word `for` on. -/
def forStatement : Reading Node := do
  expectWord "for"
  let _ ← eatWord "await"
  expectMark "("
  if ← atMark ";" then return (← countingLoop sub [])
  let declares ← (do
    if ← atOneWordOf ["var", "const"] then return true
    if ← atUsing then return true
    if ← atAwaitUsing then return true
    if !(← atWord "let") then return false
    nextIs (do
      if (← atMark "[") || (← atMark "\x7b") then return true
      return (← atAnyWord) && !(← atWord "in") && !(← atWord "instanceof")))
  if declares then
    if ← atAwaitUsing then advance
    advance
    let items ← under (fun c => { c with withoutIn := true }) (declarators sub)
    return (← loopFrom sub items some)
  let start ← under (fun c => { c with withoutIn := true }) (expression sub)
  loopFrom sub start Node.asTarget?

/-! ### Branches -/

/-- A branch from the word `if` on. -/
def ifStatement : Reading Node := do
  expectWord "if"
  let test ← condition sub
  let yes ← sub (.statement true)
  let no ← (do if ← eatWord "else" then return [← sub (.statement true)] else return [])
  return .group (test :: yes :: no)

/-- A case of a choice. -/
def case : Reading Node := do
  let test ← (do
    if ← eatWord "default" then return []
    expectWord "case"
    return [← inBrackets (expression sub)])
  expectMark ":"
  let items ← repeated do
    if (← atOneWordOf ["case", "default"]) || (← atMark "\x7d") || (← atEnd) then return none
    return some (← sub (.statement false))
  return .group (test ++ items)

/-- A choice from the word `switch` on. -/
def switchStatement : Reading Node := do
  expectWord "switch"
  let value ← condition sub
  expectMark "\x7b"
  let items ← repeated do
    if (← atMark "\x7d") || (← atEnd) then return none
    return some (← case sub)
  expectMark "\x7d"
  return .group (value :: items)

/-- A guarded block from the word `try` on. -/
def tryStatement : Reading Node := do
  expectWord "try"
  let body ← block sub
  let handler ← (do
    if ← eatWord "catch" then
      let caught ← (do
        if ← eatMark "(" then
          let target ← sub .pattern
          let type ← typeBehindColon sub
          expectMark ")"
          return target :: type
        return [])
      return caught ++ [← block sub]
    return [])
  let final ← (do if ← eatWord "finally" then return [← block sub] else return [])
  return .group (body :: handler ++ final)

/-- A jump with an optional label. -/
def jump : Reading Node := do
  advance
  if !(← mayEndStatement) then let _ ← valueName
  endStatement
  return .leaf

/-- A statement that hands a value on. -/
def handOver : Reading Node := do
  advance
  if ← mayEndStatement then
    endStatement
    return .leaf
  let value ← inBrackets (expression sub)
  endStatement
  return value

/-- A statement; `alone` where no list of statements stands. -/
def statement (alone : Bool) : Reading Node := do
  match (← current).lexeme with
  | .mark "\x7b" => block sub
  | .mark ";" => advance; return .leaf
  | .mark "@" =>
    let marks ← decorators sub
    if ← atWord "export" then
      advance
      return .group (marks ++ [← exported sub])
    skipDeclarationWords
    return .group (marks ++ [← classDefinition sub])
  | .word word =>
    match word with
    | "if" => ifStatement sub
    | "for" => forStatement sub
    | "while" => advance; return .group [← condition sub, ← sub (.statement true)]
    | "with" => advance; return .group [← condition sub, ← sub (.statement true)]
    | "do" =>
      advance
      let body ← sub (.statement true)
      expectWord "while"
      let test ← condition sub
      let _ ← eatMark ";"
      return .group [body, test]
    | "continue" | "break" => jump
    | "switch" => switchStatement sub
    | "throw" =>
      advance
      let value ← inBrackets (expression sub)
      endStatement
      return value
    | "try" => tryStatement sub
    | "debugger" => advance; endStatement; return .leaf
    | "return" => handOver sub
    | "class" => classDefinition sub
    | "function" => function sub false
    | "var" => valueDeclaration sub
    | "let" => letStatement sub alone
    | "export" => advance; exported sub
    | "import" =>
      if ← nextIs (atOneOf [".", "("]) then expressionStatement sub else return (← importDeclaration).1
    | "const" => declaration sub
    | "async" =>
      if ← nextOnLineIs (atWord "function") then advance; function sub true
      else expressionStatement sub
    | _ =>
      if ← atUsing then return (← valueDeclaration sub)
      if ← atAwaitUsing then advance; return (← valueDeclaration sub)
      if (← usesTypes) && ("enum" :: "interface" :: "type" :: "module" :: "namespace" :: "global" :: declarationWords).contains word
          && (← atTypedDeclaration) then
        skipDeclarationWords
        declaration sub
      else expressionStatement sub
  | _ => expressionStatement sub

end

/-! ### Whole scripts -/

/-- The rule of each goal. -/
def rule (sub : Rules) : Goal → Reading Node
  | .assignment mayStateResult => assignment sub mayStateResult
  | .binary level => binary sub level
  | .operand => operand sub
  | .chain => chain sub
  | .constructed => constructed sub
  | .pattern => pattern sub
  | .type => type sub
  | .typeOperand => typeOperand sub
  | .statement alone => statement sub alone
  | .tag inTag => tag sub inTag

/-- The reading of every goal, with at most `depth` rules inside one another. -/
def rules : (depth : Nat) → Rules
  | 0, _ => fail
  | depth + 1, goal => rule (rules depth) goal

/-- The statements of a script up to the end of its text. -/
def script (sub : Rules) : Reading (List Node) := do
  let items ← repeated do
    if ← atEnd then return none
    return some (← sub (.statement false))
  return items

end Grammar

/-- The tree of the script with the given text; `none` if a fault ends the reading. -/
def parse? (dialect : Dialect) (text : List Char) : Option Node :=
  let body := match text with
    | '#' :: '!' :: r => dropLine r
    | _ => text
  let size := 2 * body.length + 2
  let context : Grammar.Context := ⟨dialect, size, false, true, false, false, false⟩
  ((Grammar.script (Grammar.rules (16 * size))).run context (Grammar.Cursor.start body)).map fun (items, _) =>
    Node.group items

/-- The modules that a script loads, in the order in which they are written; `none` if a fault ends the reading. -/
def loads? (dialect : Dialect) (text : String) : Option (List Load) :=
  (parse? dialect text.toList).map Node.loads

end ScriptBundler.Script
