import ScriptBundler.Script.Token
import ScriptBundler.Script.Tree

/-!
# Reading a script by its grammar

A reading walks over the tokens of a text and gives a construct, or fails at a fault that ends the reading.  Each rule
of the grammar is a function of the rules below it: a `Goal` names a rule that may occur inside itself, and a rule
receives the reading of every goal as an argument.
-/

namespace ScriptBundler.Script

/-- Which additions to the language a script uses. -/
structure Dialect where
  /-- Statements about types. -/
  types : Bool := false
  /-- Markup tags in expressions. -/
  markup : Bool := false
deriving DecidableEq, Repr

namespace Grammar

/-- What the surrounding constructs decide for a rule. -/
structure Context where
  dialect : Dialect
  /-- At least the number of tokens of the whole text. -/
  size : Nat
  /-- The word `in` is no operator here. -/
  withoutIn : Bool := false
  /-- The word `await` is an operator here. -/
  inAsync : Bool := false
  /-- The word `yield` is an operator here. -/
  inGenerator : Bool := false
  /-- A bracket does not continue the expression here. -/
  inDecorator : Bool := false
  /-- The word `extends` does not continue a type here. -/
  withoutConditional : Bool := false

/-- The place of a reading. -/
structure Cursor where
  token : Token
  /-- The text behind the token. -/
  rest : List Char
  /-- A token broke a rule that does not end the reading. -/
  flawed : Bool

/-- A reading: from a place to a value and a later place, or to a failure. -/
abbrev Reading := ReaderT Context (StateT Cursor Option)

/-- The rules that may occur inside themselves. -/
inductive Goal
  /-- An expression without a comma; an arrow function may state the type of its result. -/
  | assignment (resultType : Bool)
  /-- Operands joined by operators that bind tighter than `level`. -/
  | binary (level : Nat)
  /-- An operand with the operators before it. -/
  | operand
  /-- A value with the members and calls behind it. -/
  | chain
  /-- A value with the members behind it: what may stand behind `new`. -/
  | constructed
  /-- Names to be bound. -/
  | pattern
  | type
  /-- A type with the words before it. -/
  | typeOperand
  /-- A statement; `alone` where no list of statements stands. -/
  | statement (alone : Bool)
  /-- A markup tag with its content. -/
  | tag (inTag : Bool)

/-- A reading of every goal. -/
abbrev Rules := Goal → Reading Node

/-! ### Moving over tokens -/

/-- The token at the start of a text. -/
def firstToken (s : List Char) : Token × List Char × Bool :=
  let skipped := skipTrivia .blank false s
  let scan := scanToken skipped.rest
  (⟨scan.lexeme, skipped.lineEnded, skipped.rest⟩, scan.rest, skipped.unclosed || scan.flawed)

/-- The place at the start of a text. -/
def Cursor.start (s : List Char) : Cursor :=
  let (token, rest, flawed) := firstToken s
  ⟨token, rest, flawed⟩

def fail {α : Type} : Reading α := fun _ _ => none

/-- The token at this place. -/
def current : Reading Token := return (← get).token

/-- Moves over one token. -/
def advance : Reading Unit := modify fun here =>
  let (token, rest, flawed) := firstToken here.rest
  ⟨token, rest, here.flawed || flawed⟩

/-- Puts another reading of the characters in place of the token. -/
def rescan (scan : Scan) : Reading Unit := modify fun here =>
  { here with token.lexeme := scan.lexeme, rest := scan.rest, flawed := here.flawed || scan.flawed }

/-- Tries a reading; on failure the place is as before. -/
def attempt {α : Type} (p : Reading α) : Reading (Option α) := fun context here =>
  match p context here with
  | some (a, there) => some (some a, there)
  | none => some (none, here)

/-- What a reading gives, without moving; `default` if it fails. -/
def foreseen {α : Type} (default : α) (p : Reading α) : Reading α := fun context here =>
  match p context here with
  | some (answer, _) => some (answer, here)
  | none => some (default, here)

/-- Asks a question of what follows without moving. -/
def ahead (p : Reading Bool) : Reading Bool := foreseen false p

/-- Repeats a reading while it gives values, at most once per token of the text. -/
def repeated {α : Type} (p : Reading (Option α)) : Reading (List α) := fun context here =>
  go context.size context here
where
  /-- At most `n` repetitions. -/
  go : Nat → Reading (List α)
    | 0 => fail
    | n + 1 => do
      match ← p with
      | some a => return a :: (← go n)
      | none => return []

/-- Repeats a step on a value while it gives a further one. -/
def iterated {α : Type} (p : α → Reading (Option α)) (a : α) : Reading α := fun context here =>
  go context.size a context here
where
  /-- At most `n` steps. -/
  go : Nat → α → Reading α
    | 0, _ => fail
    | n + 1, a => do
      match ← p a with
      | some b => go n b
      | none => return a

/-! ### Questions about the token -/

def usesTypes : Reading Bool := return (← read).dialect.types

def usesMarkup : Reading Bool := return (← read).dialect.markup

def afterBreak : Reading Bool := return (← current).afterBreak

def lexemeIs (test : Lexeme → Bool) : Reading Bool := return test (← current).lexeme

def atMark (mark : String) : Reading Bool := lexemeIs (· == .mark mark)

def atOneOf (marks : List String) : Reading Bool :=
  lexemeIs fun
    | .mark mark => marks.contains mark
    | _ => false

def atWord (word : String) : Reading Bool := lexemeIs (· == .word word)

def atOneWordOf (words : List String) : Reading Bool :=
  lexemeIs fun
    | .word word => words.contains word
    | _ => false

def atEnd : Reading Bool := lexemeIs (· == .done)

/-- The words that may stand before a declaration or a member to describe it. -/
def modifierWords : List String :=
  ["abstract", "accessor", "async", "const", "declare", "default", "export", "in", "out", "public", "private",
   "protected", "override", "readonly", "static"]

/-- A word that may name a value. -/
def atName : Reading Bool := lexemeIs Lexeme.isName

def atAnyWord : Reading Bool := lexemeIs Lexeme.isWord

/-- Asks a question of the token behind this one. -/
def nextIs (p : Reading Bool) : Reading Bool := ahead do advance; p

/-- Asks a question of the token behind this one, which must stand on the same line. -/
def nextOnLineIs (p : Reading Bool) : Reading Bool :=
  ahead do advance; if ← afterBreak then return false else p

/-! ### Taking tokens -/

def eatMark (mark : String) : Reading Bool := do
  if ← atMark mark then advance; return true
  return false

def eatWord (word : String) : Reading Bool := do
  if ← atWord word then advance; return true
  return false

def expectMark (mark : String) : Reading Unit := do
  if ← atMark mark then advance else fail

def expectWord (word : String) : Reading Unit := do
  if ← atWord word then advance else fail

/-- Any word. -/
def anyWord : Reading String := do
  match (← current).lexeme with
  | .word word => advance; return word
  | _ => fail

/-- A word that names a value. -/
def valueName : Reading String := do
  if ← atName then anyWord else fail

def quoted : Reading String := do
  match (← current).lexeme with
  | .text value => advance; return value
  | _ => fail

/-- Whether a statement may end here without a semicolon. -/
def mayEndStatement : Reading Bool := do
  let token ← current
  return token.afterBreak || token.lexeme == .mark ";" || token.lexeme == .mark "\x7d" || token.lexeme == .done

/-- The end of a statement: a semicolon, or a place where it may be missing. -/
def endStatement : Reading Unit := do
  if ← eatMark ";" then return
  if ← mayEndStatement then return
  fail

/-- Reads `p` under a changed context. -/
def under {α : Type} (change : Context → Context) (p : Reading α) : Reading α := fun context here =>
  p (change context) here

/-- Inside brackets the word `in` is an operator and a bracket continues an expression. -/
def inBrackets {α : Type} (p : Reading α) : Reading α :=
  under (fun context => { context with withoutIn := false, inDecorator := false }) p

/-- The body of a function of the given kind. -/
def inFunction {α : Type} (isAsync isGenerator : Bool) (p : Reading α) : Reading α :=
  under (fun context =>
    { context with withoutIn := false, inDecorator := false, withoutConditional := false,
                   inAsync := isAsync, inGenerator := isGenerator }) p

/-! ### Lists -/

/-- One item or more with commas between them. -/
def separated {α : Type} (item : Reading α) : Reading (List α) := do
  let first ← item
  let more ← repeated do
    if ← eatMark "," then return some (← item)
    return none
  return first :: more

/-- Items with commas between them up to `close`, which is not taken; tells whether a comma stands last. -/
def itemsUpTo {α : Type} (close : String) (item : Reading α) : Reading (List α × Bool) := do
  if (← atMark close) || (← atEnd) then return ([], false)
  let first ← item
  let more ← repeated do
    if (← atMark close) || (← atEnd) then return none
    expectMark ","
    if ← atMark close then return some none
    return some (some (← item))
  return (first :: more.filterMap id, more.any Option.isNone)

/-- Items with commas between them, then `close`. -/
def closedItems {α : Type} (close : String) (item : Reading α) : Reading (List α × Bool) := do
  let items ← itemsUpTo close item
  expectMark close
  return items

/-- Items with commas between them of which the last may gather the rest, then `close`. -/
def closedItemsWithRest {α : Type} (close : String) (item rest : Reading α) : Reading (List α) := do
  let items ← repeated do
    if (← atMark close) || (← atEnd) then return none
    if ← atMark "..." then
      let gathered ← rest
      let _ ← eatMark ","
      if ← atMark close then return some gathered
      fail
    let one ← item
    if ← atMark close then return some one
    expectMark ","
    return some one
  expectMark close
  return items

/-! ### Other readings of a mark -/

/-- Reads a slash as the start of a regular expression. -/
def asPattern : Reading Unit := do
  match (← current).source with
  | '/' :: r =>
    match patternBody false false r with
    | none => fail
    | some rest =>
      let flags := rest.takeWhile Char.isAlphanum
      rescan ⟨.pattern, rest.drop flags.length, !flagsOk flags⟩
      if (← get).flawed then fail
  | _ => fail

/-- Reads a closing brace as the continuation of a template. -/
def asTemplatePart : Reading Unit := do
  match (← current).lexeme, (← current).source with
  | .mark "\x7d", _ :: r => rescan (templatePiece .templateTail .templateMiddle r)
  | _, _ => fail

/-- Joins a `>` with the marks behind it to one operator. -/
def joinGreater : Reading Unit := do
  match (← current).lexeme, (← current).source with
  | .mark ">", s =>
    match greaterMarks.find? (·.isPrefixOf s) with
    | some m => rescan ⟨.mark (String.ofList m), s.drop m.length, false⟩
    | none => return
  | _, _ => return

/-- Splits an operator that begins with `<` after its first character. -/
def splitLess : Reading Unit := do
  match (← current).lexeme, (← current).source with
  | .mark mark, '<' :: r =>
    if mark == "<<" || mark == "<<=" || mark == "<=" then rescan ⟨.mark "<", r, false⟩
  | _, _ => return

/-- Splits an operator that begins with `>` after its first character. -/
def splitGreater : Reading Unit := do
  match (← current).lexeme, (← current).source with
  | .mark _, '>' :: r => rescan ⟨.mark ">", r, false⟩
  | _, _ => return

end Grammar

end ScriptBundler.Script
