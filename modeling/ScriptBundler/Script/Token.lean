import ScriptBundler.Text.Identifier

/-!
# Tokens of a script

What one token of a script is, and how the first token of a text is read.  A slash is always read as an operator and
a `>` always alone: the grammar asks for the other readings (`Grammar.asPattern`, `Grammar.joinGreater`) where it
expects them.
-/

namespace ScriptBundler.Script

open Text.Identifier (isStart isPart)

/-- What a token is, without its place. -/
inductive Lexeme
  /-- Nothing is left. -/
  | done
  /-- A name or keyword, with its escapes decoded. -/
  | word (name : String)
  /-- A name after `#`. -/
  | privateName (name : String)
  /-- An operator or a bracket. -/
  | mark (text : String)
  /-- A number, of any base and precision. -/
  | numeral
  /-- A quoted text, with its escapes decoded. -/
  | text (value : String)
  /-- A template without substitutions. -/
  | templateWhole
  /-- A template up to its first substitution. -/
  | templateHead
  /-- A template between two substitutions. -/
  | templateMiddle
  /-- A template after its last substitution. -/
  | templateTail
  /-- A regular expression with its flags. -/
  | pattern
  /-- Text between markup tags. -/
  | markupText
  /-- Characters that are no token. -/
  | broken
deriving DecidableEq, Repr

/-- The words that can never be names of values. -/
def reservedWords : List String :=
  ["break", "case", "catch", "class", "const", "continue", "debugger", "default", "delete", "do", "else", "enum",
   "export", "extends", "false", "finally", "for", "function", "if", "import", "in", "instanceof", "new", "null",
   "return", "super", "switch", "this", "throw", "true", "try", "typeof", "var", "void", "while", "with"]

/-- A word that may name a value. -/
def Lexeme.isName : Lexeme → Bool
  | .word label => !reservedWords.contains label
  | _ => false

/-- Any word. -/
def Lexeme.isWord : Lexeme → Bool
  | .word _ => true
  | _ => false

/-- A quoted text, a number or a word: what may name a member without brackets. -/
def Lexeme.isMemberName : Lexeme → Bool
  | .word _ | .text _ | .numeral => true
  | _ => false

/-- The start of a template. -/
def Lexeme.isTemplate : Lexeme → Bool
  | .templateWhole | .templateHead => true
  | _ => false

/-- A token with what the grammar asks about its place. -/
structure Token where
  lexeme : Lexeme
  /-- A line break stands between the token before and this one. -/
  afterBreak : Bool
  /-- The text from the first character of the token on. -/
  source : List Char

/-- What reading one token gives. -/
structure Scan where
  lexeme : Lexeme
  rest : List Char
  /-- The characters break a rule of the language that does not end the reading. -/
  flawed : Bool := false

/-- The characters that end a line. -/
def isLineEnd (c : Char) : Bool := c == '\n' || c == '\r' || c == '\u2028' || c == '\u2029'

/-- The characters that separate tokens without ending a line. -/
def isBlank (c : Char) : Bool :=
  c == ' ' || c == '\t' || c == '\x0b' || c == '\x0c' || c == '\u00a0' || c == '\ufeff' || c == '\u0085' ||
  c == '\u1680' || c == '\u180e' || ('\u2000' ≤ c && c ≤ '\u200b') || c == '\u202f' || c == '\u205f' || c == '\u3000'

/-! ### Blanks and comments -/

/-- Where the skipping of blanks and comments stands. -/
inductive Trivia
  | blank
  | lineComment
  | blockComment

/-- What is left after blanks and comments, whether a line ended in them, and whether a comment was left open. -/
structure Skipped where
  rest : List Char
  lineEnded : Bool
  unclosed : Bool

/-- Skips blanks and comments. -/
def skipTrivia : Trivia → Bool → List Char → Skipped
  | .blank, ended, '/' :: '/' :: r => skipTrivia .lineComment ended r
  | .blank, ended, '/' :: '*' :: r => skipTrivia .blockComment ended r
  | .blank, ended, c :: r =>
    if isLineEnd c then skipTrivia .blank true r
    else if isBlank c then skipTrivia .blank ended r
    else ⟨c :: r, ended, false⟩
  | .lineComment, ended, c :: r =>
    if isLineEnd c then skipTrivia .blank true r else skipTrivia .lineComment ended r
  | .blockComment, ended, '*' :: '/' :: r => skipTrivia .blank ended r
  | .blockComment, ended, c :: r => skipTrivia .blockComment (ended || isLineEnd c) r
  | .blockComment, ended, [] => ⟨[], ended, true⟩
  | _, ended, [] => ⟨[], ended, false⟩

/-- What stands behind the first line, for the line that names an interpreter. -/
def dropLine : List Char → List Char
  | [] => []
  | c :: r => if isLineEnd c then c :: r else dropLine r

/-! ### Escapes -/

/-- The value of a hexadecimal digit. -/
def hexDigit? (c : Char) : Option Nat :=
  if '0' ≤ c && c ≤ '9' then some (c.toNat - 48)
  else if 'a' ≤ c && c ≤ 'f' then some (c.toNat - 87)
  else if 'A' ≤ c && c ≤ 'F' then some (c.toNat - 55)
  else none

/-- Reads exactly `n` hexadecimal digits; on failure the digits before the fault are gone. -/
def hexDigits : (n : Nat) → Nat → List Char → Option Nat × List Char
  | 0, value, s => (some value, s)
  | _ + 1, _, [] => (none, [])
  | n + 1, value, c :: r =>
    match hexDigit? c with
    | some d => hexDigits n (value * 16 + d) r
    | none => (none, c :: r)

/-- Reads the digits of a code point up to the closing brace. -/
def bracedCodePoint : Bool → Nat → List Char → Option Nat × List Char
  | _, _, [] => (none, [])
  | any, value, c :: r =>
    match hexDigit? c with
    | some d => if value * 16 + d > 0x10ffff then (none, r) else bracedCodePoint true (value * 16 + d) r
    | none => if any && c == '\x7d' then (some value, r) else (none, c :: r)

/-- Reads what stands behind a backslash and `u`. -/
def unicodeEscape : List Char → Option Nat × List Char
  | '\x7b' :: r => bracedCodePoint false 0 r
  | s => hexDigits 4 0 s

/-- A first half of a surrogate pair. -/
def isHighSurrogate (n : Nat) : Bool := 0xd800 ≤ n && n < 0xdc00

/-- A second half of a surrogate pair. -/
def isLowSurrogate (n : Nat) : Bool := 0xdc00 ≤ n && n < 0xe000

/-- The code points that a unicode escape in a text stands for; two halves of a pair written one after the other
are one code point. -/
def textUnicodeEscape (s : List Char) : Option (List Nat) × List Char :=
  match s with
  | '\x7b' :: r =>
    let (value, rest) := bracedCodePoint false 0 r
    (value.map ([·]), rest)
  | s =>
    match hexDigits 4 0 s with
    | (none, rest) => (none, rest)
    | (some high, '\\' :: 'u' :: r) =>
      if isHighSurrogate high then
        match hexDigits 4 0 r with
        | (none, rest) => (none, rest)
        | (some low, rest) =>
          if isLowSurrogate low then (some [0x10000 + (high - 0xd800) * 1024 + (low - 0xdc00)], rest)
          else (some [high, low], rest)
      else (some [high], '\\' :: 'u' :: r)
    | (some high, rest) => (some [high], rest)

/-- Reads at most `n` further octal digits. -/
def octalDigits : (n : Nat) → Nat → List Char → Nat × List Char
  | n + 1, value, c :: r =>
    if '0' ≤ c && c ≤ '7' then octalDigits n (value * 8 + (c.toNat - 48)) r else (value, c :: r)
  | _, value, s => (value, s)

/-- What stands behind a backslash in a quoted text: the code points meant, or `none` for a wrong escape. -/
def textEscape : List Char → Option (List Nat) × List Char
  | [] => (none, [])
  | '\r' :: '\n' :: r => (some [], r)
  | 'x' :: r => let (value, rest) := hexDigits 2 0 r; (value.map ([·]), rest)
  | 'u' :: r => textUnicodeEscape r
  | c :: r =>
    if isLineEnd c then (some [], r)
    else if c == 'b' then (some [8], r)
    else if c == 'n' then (some [10], r)
    else if c == 'r' then (some [13], r)
    else if c == 't' then (some [9], r)
    else if c == 'v' then (some [11], r)
    else if c == 'f' then (some [12], r)
    else if '0' ≤ c && c ≤ '3' then let (value, rest) := octalDigits 2 (c.toNat - 48) r; (some [value], rest)
    else if '4' ≤ c && c ≤ '7' then let (value, rest) := octalDigits 1 (c.toNat - 48) r; (some [value], rest)
    else (some [c.toNat], r)

/-- Four hexadecimal digits in lower case. -/
def fourHex (n : Nat) : List Char :=
  [n / 4096 % 16, n / 256 % 16, n / 16 % 16, n % 16].map Nat.digitChar

/-- A code point that is half of a surrogate pair. -/
def isSurrogate (n : Nat) : Bool := 0xd800 ≤ n && n < 0xe000

/-- The text of code points; if one of them is half of a surrogate pair, each such half and each replacement
character is written as the replacement character and four digits. -/
def textOfCodePoints (points : List Nat) : String :=
  if points.any isSurrogate then
    String.ofList (points.flatMap fun n =>
      if isSurrogate n || n == 0xfffd then '\ufffd' :: fourHex n else [Char.ofNat n])
  else String.ofList (points.map Char.ofNat)

/-! ### Words, numerals, quoted texts -/

/-- Reads the letters of a name with their escapes; `none` for a wrong escape. -/
def nameLetters : (fuel : Nat) → List Char → Option (List Char) × List Char
  | 0, s => (some [], s)
  | fuel + 1, '\\' :: 'u' :: r =>
    match unicodeEscape r with
    | (none, rest) => (none, rest)
    | (some n, rest) =>
      if isPart (Char.ofNat n) && n ≠ 0 then
        let (more, left) := nameLetters fuel rest
        (more.map (Char.ofNat n :: ·), left)
      else (none, rest)
  | _ + 1, '\\' :: r => (none, r)
  | fuel + 1, c :: r =>
    if isPart c then
      let (more, left) := nameLetters fuel r
      (more.map (c :: ·), left)
    else (some [], c :: r)
  | _ + 1, [] => (some [], [])

/-- The end of the name that starts here. -/
def scanName (make : String → Lexeme) (s : List Char) : Scan :=
  let letters := s.takeWhile isPart
  let rest := s.dropWhile isPart
  match rest with
  | '\\' :: _ =>
    match nameLetters (s.length + 1) s with
    | (some letters, rest) =>
      match letters with
      | [] => ⟨.broken, rest, true⟩
      | c :: _ => if isStart c then ⟨make (String.ofList letters), rest, false⟩ else ⟨.broken, rest, true⟩
    | (none, rest) => ⟨.broken, rest, true⟩
  | _ => ⟨make (String.ofList letters), rest, false⟩

/-- A number must not run into a name. -/
def endNumeral (flawed : Bool) : List Char → Scan
  | [] => ⟨.numeral, [], flawed⟩
  | c :: r =>
    if c.isDigit || isStart c then ⟨.broken, r.dropWhile isStart, true⟩ else ⟨.numeral, c :: r, flawed⟩

/-- Reads digits and the underscores between them; the flag tells that an underscore stands where none may. -/
def digitRun (isDigit : Char → Bool) : List Char → List Char × Bool
  | '_' :: d :: r => if isDigit d then digitRun isDigit r else (d :: r, true)
  | ['_'] => ([], true)
  | c :: r => if isDigit c then digitRun isDigit r else (c :: r, false)
  | [] => ([], false)

/-- Reads digits that may be missing. -/
def optionalDigits (s : List Char) : List Char × Bool :=
  match s with
  | c :: r => if c.isDigit then digitRun Char.isDigit r else (s, false)
  | [] => ([], false)

/-- What follows the letter of an exponent. -/
def exponentEnd (flawed : Bool) (s : List Char) : Scan :=
  let digits := match s with
    | '+' :: r => r
    | '-' :: r => r
    | r => r
  match digits with
  | c :: r =>
    if c.isDigit then
      let (rest, bad) := digitRun Char.isDigit r
      endNumeral (flawed || bad) rest
    else endNumeral true (c :: r)
  | [] => endNumeral true []

/-- What follows the whole digits of a decimal number, behind its point. -/
def fractionEnd (flawed : Bool) (s : List Char) : Scan :=
  let (rest, bad) := optionalDigits s
  match rest with
  | 'e' :: r => exponentEnd (flawed || bad) r
  | 'E' :: r => exponentEnd (flawed || bad) r
  | _ => endNumeral (flawed || bad) rest

/-- What follows the whole digits of a decimal number. -/
def decimalEnd (flawed : Bool) : List Char → Scan
  | '.' :: r => fractionEnd flawed r
  | 'n' :: r => endNumeral flawed r
  | 'e' :: r => exponentEnd flawed r
  | 'E' :: r => exponentEnd flawed r
  | s => endNumeral flawed s

/-- A number in base two, eight or sixteen, behind its mark. -/
def radixNumeral (isDigit : Char → Bool) : List Char → Scan
  | c :: r =>
    if isDigit c then
      let (rest, bad) := digitRun isDigit r
      match rest with
      | 'n' :: r => endNumeral bad r
      | _ => endNumeral bad rest
    else ⟨.broken, c :: r, true⟩
  | [] => ⟨.broken, [], true⟩

/-- A number that starts with a needless zero: octal unless a digit is too large. -/
def zeroNumeral (s : List Char) : Scan :=
  let digits := s.takeWhile Char.isDigit
  let rest := s.dropWhile Char.isDigit
  if digits.any (· ≥ '8') then
    match rest with
    | '.' :: r => fractionEnd false r
    | 'e' :: r => exponentEnd false r
    | _ => endNumeral false rest
  else endNumeral false rest

/-- The number that starts here with a digit. -/
def scanNumeral : List Char → Scan
  | '0' :: c :: r =>
    if c == 'b' || c == 'B' then radixNumeral (fun d => d == '0' || d == '1') r
    else if c == 'o' || c == 'O' then radixNumeral (fun d => '0' ≤ d && d ≤ '7') r
    else if c == 'x' || c == 'X' then radixNumeral (fun d => (hexDigit? d).isSome) r
    else if c.isDigit then zeroNumeral (c :: r)
    else decimalEnd false (c :: r)
  | _ :: r =>
    let (rest, bad) := digitRun Char.isDigit r
    decimalEnd bad rest
  | [] => ⟨.done, [], false⟩

/-- Reads a quoted text up to `quote`, collecting code points. -/
def quotedText (quote : Char) : (fuel : Nat) → List Nat → Bool → List Char → Scan
  | 0, _, _, s => ⟨.broken, s, true⟩
  | _ + 1, _, _, [] => ⟨.broken, [], true⟩
  | fuel + 1, points, flawed, '\\' :: r =>
    match textEscape r with
    | (some more, rest) => quotedText quote fuel (more.reverse ++ points) flawed rest
    | (none, rest) => quotedText quote fuel points true rest
  | fuel + 1, points, flawed, c :: r =>
    if c == quote then ⟨.text (textOfCodePoints points.reverse), r, flawed⟩
    else if c == '\n' || c == '\r' then ⟨.broken, r, true⟩
    else quotedText quote fuel (c.toNat :: points) flawed r

/-- Reads the rest of a template piece: `whole` if it ends the template, `part` if a substitution opens. -/
def templatePiece (whole part : Lexeme) : List Char → Scan
  | '\\' :: _ :: r => templatePiece whole part r
  | '$' :: '\x7b' :: r => ⟨part, r, false⟩
  | c :: r => if c == '\x60' then ⟨whole, r, false⟩ else templatePiece whole part r
  | [] => ⟨.broken, [], true⟩

/-- Reads the body of a regular expression behind its opening slash; `none` if the line ends first. -/
def patternBody : (escaped inClass : Bool) → List Char → Option (List Char)
  | _, _, [] => none
  | escaped, inClass, c :: r =>
    if isLineEnd c then none
    else if escaped then patternBody false inClass r
    else if c == '/' && !inClass then some r
    else if c == '[' then patternBody false true r
    else if c == '\\' then patternBody true inClass r
    else if c == ']' then patternBody false false r
    else patternBody false inClass r

/-- The flags that a regular expression may carry, each once. -/
def flagsOk (flags : List Char) : Bool :=
  flags.all (fun c => "dgimsuvy".toList.contains c) && (flags.eraseDups.length == flags.length)

/-- The operators and brackets, longer ones before their beginnings. -/
def marks : List (List Char) :=
  ["...", "===", "!==", "**=", "<<=", "&&=", "||=", "??=",
   "=>", "==", "!=", "<=", "<<", "++", "--", "+=", "-=", "**", "*=", "/=", "%=", "&&", "||", "&=", "|=", "^=",
   "??", "?.", "\x7b", "\x7d", "(", ")", "[", "]", ";", ",", "<", ">", "+", "-", "*", "/", "%", "&", "|", "^",
   "!", "~", "?", ":", "=", ".", "@"].map String.toList

/-- The operator or bracket that starts here; a question mark and a point before a digit are a question mark. -/
def scanMark (s : List Char) : Scan :=
  match s with
  | '?' :: '.' :: d :: r => if d.isDigit then ⟨.mark "?", '.' :: d :: r, false⟩ else ⟨.mark "?.", d :: r, false⟩
  | _ =>
    match marks.find? (·.isPrefixOf s) with
    | some m => ⟨.mark (String.ofList m), s.drop m.length, false⟩
    | none => ⟨.broken, s.drop 1, true⟩

/-- The token that starts with the first character. -/
def scanToken (s : List Char) : Scan :=
  match s with
  | [] => ⟨.done, [], false⟩
  | c :: r =>
    if isStart c || c == '\\' then scanName .word s
    else if c.isDigit then scanNumeral s
    else if c == '\x22' || c == '\x27' then quotedText c (r.length + 1) [] false r
    else if c == '\x60' then templatePiece .templateWhole .templateHead r
    else if c == '#' then
      match r with
      | d :: _ => if isStart d || d == '\\' then scanName .privateName r else ⟨.broken, r, true⟩
      | [] => ⟨.broken, r, true⟩
    else if c == '.' then
      match r with
      | d :: r' =>
        if d.isDigit then
          let (rest, bad) := digitRun Char.isDigit r'
          match rest with
          | 'e' :: r => exponentEnd bad r
          | 'E' :: r => exponentEnd bad r
          | _ => endNumeral bad rest
        else scanMark s
      | [] => scanMark s
    else scanMark s

/-- The operators that begin with `>`, longer ones first. -/
def greaterMarks : List (List Char) := [">>>=", ">>>", ">>=", ">>", ">=", ">"].map String.toList

end ScriptBundler.Script
