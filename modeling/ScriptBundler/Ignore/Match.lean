import ScriptBundler.Ignore.Pattern

/-!
# Paths that match an ignore pattern

A token is understood by `Token.rests`, the ways in which a text can go on behind what the token stands for. Tokens
match a text if one of these ways ends where the text does (`isMatch`).
-/

namespace ScriptBundler.Ignore

/-- The byte of a slash. -/
def slash : UInt8 := 0x2F

/-- What is left of a list behind the given front. -/
def behind? {α : Type} [BEq α] (front xs : List α) : Option (List α) :=
  if front.isPrefixOf xs then some (xs.drop front.length) else none

/-- What can be left of a text behind a run of bytes other than slashes. -/
def runRests : List UInt8 → List (List UInt8)
  | [] => [[]]
  | b :: bs => (b :: bs) :: if b = slash then [] else runRests bs

/-- What is left of a text behind each of its slashes. -/
def behindSlashes : List UInt8 → List (List UInt8)
  | [] => []
  | b :: bs => if b = slash then bs :: behindSlashes bs else behindSlashes bs

/-- All ends of a text, the text itself first. -/
def ends : List UInt8 → List (List UInt8)
  | [] => [[]]
  | b :: bs => (b :: bs) :: ends bs

mutual

/-- What can be left of a text behind a token. -/
def Token.rests : Token → List UInt8 → List (List UInt8)
  | .char c, bs => (behind? (String.utf8EncodeChar c) bs).toList
  | .anyByte, bs => match bs with
    | b :: bs => if b = slash then [] else [bs]
    | [] => []
  | .anyRun, bs => runRests bs
  | .anyStart, bs => bs :: behindSlashes bs
  | .anyEnd, bs => match bs with
    | b :: bs => if b = slash then ends bs else []
    | [] => []
  | .anyBetween, bs => match bs with
    | b :: bs => if b = slash then bs :: behindSlashes bs else []
    | [] => []
  | .byte inside ranges, bs => match bs with
    | b :: bs => if ranges.any (fun (first, last) => first ≤ b && b ≤ last) = inside then [bs] else []
    | [] => []
  | .oneOf branches, bs => if branches.isEmpty then [bs] else branchRests branches bs

/-- What can be left of a text behind tokens. -/
def tokenRests : List Token → List UInt8 → List (List UInt8)
  | [], bs => [bs]
  | t :: ts, bs => (t.rests bs).flatMap (tokenRests ts)

/-- What can be left of a text behind one of several branches. -/
def branchRests : List (List Token) → List UInt8 → List (List UInt8)
  | [], _ => []
  | ts :: tss, bs => tokenRests ts bs ++ branchRests tss bs

end

/-- Whether tokens stand for a whole text. -/
def fills : List Token → List UInt8 → Bool
  | [], bs => bs.isEmpty
  | t :: ts, bs => (t.rests bs).any (fills ts)

/-- Whether a pattern matches the bytes of a path. Two stars alone match every path. -/
def isMatch (pattern : List Token) (bs : List UInt8) : Bool :=
  match pattern with
  | [.anyStart] => true
  | ts => fills ts bs

end ScriptBundler.Ignore
