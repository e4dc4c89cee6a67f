import ScriptBundler.Script.Grammar.Callable

/-!
# Markup tags

The rules for tags that stand as expressions.  Between tags the text is read by rules of its own: all up to the next
tag or brace is one token.
-/

namespace ScriptBundler.Script.Grammar

/-- The token at the start of a text between tags. -/
def scanMarkup (s : List Char) : Scan :=
  match s with
  | [] => ⟨.done, [], false⟩
  | '<' :: r => ⟨.mark "<", r, false⟩
  | '\x7b' :: r => ⟨.mark "\x7b", r, false⟩
  | _ =>
    let words := s.takeWhile fun c => c != '<' && c != '\x7b'
    ⟨.markupText, s.drop words.length, words.any fun c => c == '>' || c == '\x7d'⟩

/-- Moves over one token to text between tags. -/
def advanceToMarkup : Reading Unit := modify fun here =>
  let scan := scanMarkup here.rest
  ⟨⟨scan.lexeme, false, here.rest⟩, scan.rest, here.flawed || scan.flawed⟩

/-- Takes a mark behind which text between tags starts. -/
def expectMarkThenMarkup (mark : String) : Reading Unit := do
  if ← atMark mark then advanceToMarkup else fail

section
variable (sub : Rules)

/-- A name of a tag or attribute, which may hold hyphens. -/
def tagWord : Reading Unit := do
  if !(← atAnyWord) then fail
  modify fun here => { here with rest := here.rest.dropWhile fun c => c == '-' || Text.Identifier.isPart c }
  advance

/-- The name of a tag, with a space name before it or members behind it. -/
def tagName : Reading Unit := do
  tagWord
  if ← eatMark ":" then tagWord
  else
    let _ ← repeated do if ← eatMark "." then tagWord; return some () else return none
    return

/-- An expression in braces behind the opening brace, with `close` to take the closing one. -/
def inserted (close : Reading Unit) : Reading Node := do
  let value ← inBrackets (sub (.assignment true))
  close
  return value

/-- Braces behind the opening brace; they may hold nothing. -/
def insertion (close : Reading Unit) : Reading Node := do
  if ← atMark "\x7d" then close; return .leaf
  inserted sub close

/-- The value of an attribute. -/
def attributeValue : Reading Node := do
  match (← current).lexeme with
  | .text _ => advance; return .leaf
  | .mark "\x7b" => advance; insertion sub (expectMark "\x7d")
  | .mark "<" => advance; sub (.tag false)
  | _ => fail

/-- Takes the equals sign at this place and the value of the attribute; a quoted value directly behind it may hold line
breaks and has no escapes. -/
def attributeAssignment : Reading Node := do
  let here ← get
  match here.rest with
  | c :: r =>
    if c == '\x22' || c == '\x27' then
      let left := r.dropWhile (· != c)
      match left with
      | [] => fail
      | _ :: rest =>
        set { here with rest := rest }
        advance
        return .leaf
    else
      advance
      attributeValue sub
  | [] => fail

/-- The attributes of a tag. -/
def attributes : Reading (List Node) :=
  repeated do
    if (← atMark "/") || (← atMark ">") || (← atEnd) then return none
    if ← eatMark "\x7b" then
      expectMark "..."
      return some (← inserted sub (expectMark "\x7d"))
    tagWord
    if ← eatMark ":" then tagWord
    if ← atMark "=" then return some (← attributeAssignment sub)
    return some .leaf

/-- What stands between an opening tag and the slash of its closing tag. -/
def content : Reading (List Node) :=
  repeated do
    match (← current).lexeme with
    | .mark "<" =>
      advance
      if ← eatMark "/" then return none
      return some (← sub (.tag true))
    | .mark "\x7b" =>
      advance
      let close := expectMarkThenMarkup "\x7d"
      if ← eatMark "..." then return some (← inserted sub close)
      return some (← insertion sub close)
    | .markupText => advanceToMarkup; return some .leaf
    | _ => fail

/-- The closing tag behind its slash. It need not bear the name of the opening tag. -/
def closingTag (finish : Reading Unit) : Reading Unit := do
  if !(← atMark ">") then tagName
  finish

/-- A tag behind its opening angle bracket, with its content and closing tag. -/
def tag (inTag : Bool) : Reading Node := do
  let finish := if inTag then expectMarkThenMarkup ">" else expectMark ">"
  if ← atMark ">" then
    advanceToMarkup
    let parts ← content sub
    closingTag finish
    return .group parts
  tagName
  let types ← (do if ← usesTypes then typeArgumentsOnLine sub else return [])
  let values ← attributes sub
  if ← eatMark "/" then
    finish
    return .group (types ++ values)
  expectMarkThenMarkup ">"
  let parts ← content sub
  closingTag finish
  return .group (types ++ values ++ parts)

end

end ScriptBundler.Script.Grammar
