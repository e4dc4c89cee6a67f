/-!
# Ignore patterns

A pattern of an ignore file is a list of tokens. It is matched against the bytes of a path, and a slash is matched by
a slash alone, except in a class that is written by what it leaves out.

* `read` reads a pattern, and refuses one that ends in a backslash, has unmatched braces or a class that runs
  backwards. A bracket without end is a plain character, and so are all brackets behind it;
* braces hold branches, and a branch that stands for nothing is dropped (`Token.ofBranches`).
-/

namespace ScriptBundler.Ignore

/-- What a pattern asks of a path. -/
inductive Token where
  | char (c : Char)
  /-- One byte of a name. -/
  | anyByte
  /-- A run of bytes of a name. -/
  | anyRun
  /-- Two stars in front: any directories, or none. -/
  | anyStart
  /-- Two stars at the end: a slash and all behind it. -/
  | anyEnd
  /-- Two stars between slashes: a slash, or any directories between two slashes. -/
  | anyBetween
  /-- A byte that is in one of the ranges exactly if it shall be. -/
  | byte (inside : Bool) (ranges : List (UInt8 × UInt8))
  /-- One of the branches; nothing if there is none. -/
  | oneOf (branches : List (List Token))
  deriving Inhabited, Repr

/-- What can be wrong with a pattern. -/
inductive Fault where
  | danglingEscape
  | unopenedBranches
  | unclosedBranches
  /-- The last character of a range stands before the first one. -/
  | reversedRange
  deriving DecidableEq, Inhabited, Repr

/-- Whether a token stands for nothing at all. -/
def Token.isVoid : Token → Bool
  | .oneOf [] => true
  | _ => false

/-- The token of the branches between braces. -/
def Token.ofBranches (branches : List (List Token)) : Token := .oneOf (branches.filter (!·.all Token.isVoid))

/-- The bytes that a range of characters stands for: characters of more than one byte stand for each of them. -/
def byteRanges : Char × Char → List (UInt8 × UInt8)
  | (a, b) =>
    let one (x : UInt8) : UInt8 × UInt8 := (x, x)
    let first := String.utf8EncodeChar a
    let last := String.utf8EncodeChar b
    if a = b then first.map one
    else first.dropLast.map one ++ [(first.getLastD 0, last.headD 0)] ++ last.tail.map one

/-- Gives the range read last, which stands in front, a new end. -/
def widen (c : Char) : List (Char × Char) → Except Fault (List (Char × Char))
  | (a, _) :: rest => if c < a then .error .reversedRange else .ok ((a, c) :: rest)
  | [] => .ok [(c, c)]

/-- Reads the members of a class up to its closing bracket, and answers with the text behind it; with nothing if there
is none. A bracket or hyphen in front is a member, and so is a hyphen at the end. -/
def members (isFirst inRange : Bool) (ranges : List (Char × Char)) :
    List Char → Except Fault (Option (List (Char × Char) × List Char))
  | [] => .ok none
  | c :: cs =>
    if c = ']' ∧ ¬ isFirst then .ok (some ((if inRange then ('-', '-') :: ranges else ranges).reverse, cs))
    else if c = '-' ∧ ¬ isFirst ∧ ¬ inRange then members false true ranges cs
    else if inRange then
      match widen c ranges with
      | .ok ranges => members false false ranges cs
      | .error e => .error e
    else members false false ((c, c) :: ranges) cs

private theorem members_length {isFirst inRange : Bool} {ranges found : List (Char × Char)} {cs rest : List Char}
    (h : members isFirst inRange ranges cs = .ok (some (found, rest))) : rest.length < cs.length := by
  fun_induction members isFirst inRange ranges cs <;> simp_all <;> omega

/-- A class behind its opening bracket, and the text behind it. -/
def classOf (cs : List Char) : Except Fault (Option (Token × List Char)) :=
  let outside := cs.head? = some '!' ∨ cs.head? = some '^'
  match members true false [] (if outside then cs.tail else cs) with
  | .ok (some (ranges, rest)) => .ok (some (.byte (!outside) (ranges.flatMap byteRanges), rest))
  | .ok none => .ok none
  | .error e => .error e

private theorem classOf_length {cs rest : List Char} {t : Token} (h : classOf cs = .ok (some (t, rest))) :
    rest.length < cs.length := by
  unfold classOf at h
  simp only at h
  split at h
  · rename_i ranges rest' e
    simp only [Except.ok.injEq, Option.some.injEq, Prod.mk.injEq] at h
    have key := members_length e
    rw [← h.2]
    split at key
    · rw [List.length_tail] at key; omega
    · exact key
  · cases h
  · cases h

/-- A pattern in the course of being read. -/
structure Draft where
  /-- The tokens of the branch being read. -/
  tokens : List Token := []
  /-- For each pair of open braces, the innermost first, the tokens in front of it and the branches behind it. -/
  outer : List (List Token × List (List Token)) := []
  /-- Whether brackets are plain characters. -/
  plainBrackets : Bool := false
  deriving Inhabited

namespace Draft

def push (d : Draft) (t : Token) : Draft := { d with tokens := d.tokens ++ [t] }

/-- Puts a token for two stars in the place of the slash in front of them. -/
def pushStars (d : Draft) (t : Token) : Draft :=
  match d.tokens.getLast? with
  | some .anyStart => d
  | some .anyEnd => d
  | _ => { d with tokens := d.tokens.dropLast ++ [t] }

/-- Whether two stars behind the given character may stand for directories. -/
def startsPiece (d : Draft) (before : Option Char) : Bool :=
  before = some '/' || (!d.outer.isEmpty && (before = some ',' || before = some '{'))

end Draft

/-- Reads a pattern on from the character behind `before`. -/
def readFrom (d : Draft) (before : Option Char) (cs : List Char) : Except Fault Draft :=
  match cs with
  | [] => .ok d
  | '?' :: rest => readFrom (d.push .anyByte) (some '?') rest
  | '*' :: '*' :: rest =>
    if d.tokens.isEmpty then
      match rest with
      | [] => .ok (d.push .anyStart)
      | '/' :: rest => readFrom (d.push .anyStart) (some '/') rest
      | rest => readFrom ((d.push .anyRun).push .anyRun) (some '*') rest
    else if d.startsPiece before then
      match rest with
      | [] => .ok (d.pushStars .anyEnd)
      | '/' :: rest => readFrom (d.pushStars .anyBetween) (some '/') rest
      | c :: rest =>
        if (c = ',' ∨ c = '}') ∧ ¬ d.outer.isEmpty then readFrom (d.pushStars .anyEnd) (some '*') (c :: rest)
        else readFrom ((d.push .anyRun).push .anyRun) (some '*') (c :: rest)
    else readFrom ((d.push .anyRun).push .anyRun) (some '*') rest
  | '*' :: rest => readFrom (d.push .anyRun) (some '*') rest
  | '[' :: rest =>
    if d.plainBrackets then readFrom (d.push (.char '[')) (some '[') rest
    else
      match _h : classOf rest with
      | .ok (some (token, after)) => readFrom (d.push token) (some ']') after
      | .ok none => readFrom { d.push (.char '[') with plainBrackets := true } (some '[') rest
      | .error e => .error e
  | '{' :: rest => readFrom { d with tokens := [], outer := (d.tokens, []) :: d.outer } (some '{') rest
  | '}' :: rest =>
    match d.outer with
    | [] => .error .unopenedBranches
    | (front, branches) :: outer =>
      readFrom { d with tokens := front ++ [.ofBranches (branches ++ [d.tokens])], outer } (some '}') rest
  | ',' :: rest =>
    match d.outer with
    | [] => readFrom (d.push (.char ',')) (some ',') rest
    | (front, branches) :: outer =>
      readFrom { d with tokens := [], outer := (front, branches ++ [d.tokens]) :: outer } (some ',') rest
  | '\\' :: rest =>
    match rest with
    | [] => .error .danglingEscape
    | c :: rest => readFrom (d.push (.char c)) (some c) rest
  | c :: rest => readFrom (d.push (.char c)) (some c) rest
termination_by cs.length
decreasing_by
  all_goals simp only [List.length_cons]
  all_goals first
    | omega
    | have := classOf_length ‹_›; omega

/-- Reads a pattern. -/
def read (cs : List Char) : Except Fault (List Token) :=
  match readFrom {} none cs with
  | .ok d => if d.outer.isEmpty then .ok d.tokens else .error .unclosedBranches
  | .error e => .error e

end ScriptBundler.Ignore
