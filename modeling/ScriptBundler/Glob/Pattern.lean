/-!
# Glob patterns

A pattern is a list of tokens. A star stands for any run of characters, a question mark for one, brackets for one of a
class or, with an exclamation mark, for one outside it; two stars that fill a whole piece between slashes stand for
any number of directories.

* `parse` reads a pattern, and says near which character it is faulty;
* `hasMagic` tells whether a text has pattern syntax at all;
* `escape` writes a text as a pattern for just that text.
-/

namespace ScriptBundler.Glob

/-- A member of a bracketed class. -/
inductive Member where
  | one (c : Char)
  /-- All characters from the first to the last. -/
  | range (first last : Char)
  deriving DecidableEq, Inhabited, Repr

def Member.contains : Member → Char → Bool
  | .one m, c => c = m
  | .range a b, c => a ≤ c && c ≤ b

/-- What a pattern asks of a text. -/
inductive Token where
  | char (c : Char)
  /-- One character. -/
  | anyChar
  /-- A run of characters. -/
  | anyRun
  /-- Whole directories, the slash behind each included. -/
  | anyDirectories
  | within (members : List Member)
  | without (members : List Member)
  deriving DecidableEq, Inhabited, Repr

/-- What can be wrong with a pattern. -/
inductive Fault where
  /-- More than two stars in a row. -/
  | manyStars
  /-- Two stars that share their piece with something else. -/
  | crowdedStars
  /-- Brackets without end or content. -/
  | openClass
  deriving DecidableEq, Inhabited, Repr

def Fault.message : Fault → String
  | .manyStars => "wildcards are either regular `*` or recursive `**`"
  | .crowdedStars => "recursive wildcards must form a single path component"
  | .openClass => "invalid range pattern"

/-- A fault and the character near which it lies. -/
structure PatternError where
  position : Nat
  fault : Fault
  deriving DecidableEq, Inhabited, Repr

def PatternError.message (e : PatternError) : String :=
  "Pattern syntax error near position " ++ toString e.position ++ ": " ++ e.fault.message

/-- The members written between brackets. -/
def members : List Char → List Member
  | a :: '-' :: b :: cs => .range a b :: members cs
  | c :: cs => .one c :: members cs
  | [] => []

/-- A class behind its opening bracket, and the text behind its closing one. The first character is always a member. -/
def classOf : List Char → Option (Token × List Char)
  | '!' :: c :: cs => close .without c cs
  | '!' :: [] => none
  | c :: cs => close .within c cs
  | [] => none
where
  close (token : List Member → Token) (c : Char) (cs : List Char) : Option (Token × List Char) :=
    match cs.dropWhile (· ≠ ']') with
    | _ :: rest => some (token (members (c :: cs.takeWhile (· ≠ ']'))), rest)
    | [] => none

private theorem classOf_length {cs rest : List Char} {t : Token} (h : classOf cs = some (t, rest)) :
    rest.length < cs.length := by
  have key : ∀ {token : List Member → Token} {c : Char} {cs : List Char},
      classOf.close token c cs = some (t, rest) → rest.length < cs.length := by
    intro token c cs h
    unfold classOf.close at h
    split at h
    · rename_i x r e
      simp only [Option.some.injEq, Prod.mk.injEq] at h
      have := (List.dropWhile_suffix (l := cs) fun c => decide (c ≠ ']')).length_le
      rw [e, List.length_cons] at this
      rw [← h.2]; omega
    · cases h
  unfold classOf at h
  split at h
  · have := key h; simp only [List.length_cons]; omega
  · cases h
  · have := key h; simp only [List.length_cons]; omega
  · cases h

/-- Appends a token; two directory tokens in a row are one, unless they open the pattern. -/
def push (done : List Token) : Token → List Token
  | .anyDirectories =>
    if done.length > 1 ∧ done.getLast? = some .anyDirectories then done else done ++ [.anyDirectories]
  | t => done ++ [t]

/-- Reads a pattern from the character at `position` on, `before` being the one in front of it. -/
def read (done : List Token) (position : Nat) (before : Option Char) (cs : List Char) :
    Except PatternError (List Token) :=
  match cs with
  | [] => .ok done
  | '?' :: rest => read (push done .anyChar) (position + 1) (some '?') rest
  | '*' :: '*' :: '*' :: _ => .error ⟨position + 2, .manyStars⟩
  | '*' :: '*' :: rest =>
    if before = none ∨ before = some '/' then
      match rest with
      | [] => .ok (push done .anyDirectories)
      | '/' :: rest => read (push done .anyDirectories) (position + 3) (some '/') rest
      | _ => .error ⟨position + 2, .crowdedStars⟩
    else .error ⟨position - 1, .crowdedStars⟩
  | '*' :: rest => read (push done .anyRun) (position + 1) (some '*') rest
  | '[' :: rest =>
    match h : classOf rest with
    | some (token, after) =>
      read (push done token) (position + 1 + (rest.length - after.length)) (some ']') after
    | none => .error ⟨position, .openClass⟩
  | c :: rest => read (push done (.char c)) (position + 1) (some c) rest
termination_by cs.length
decreasing_by
  all_goals simp only [List.length_cons]
  all_goals first
    | omega
    | have := classOf_length h; omega

/-- Reads a pattern. -/
def parse (text : String) : Except PatternError (List Token) := read [] 0 none text.toList

/-- Whether a text has pattern syntax. -/
def hasMagic (text : String) : Bool := text.toList.any fun c => c = '*' ∨ c = '?' ∨ c = '['

/-- A pattern for exactly the given text. -/
def escape (text : String) : String :=
  String.ofList <| text.toList.flatMap fun c =>
    if c = '?' ∨ c = '*' ∨ c = '[' ∨ c = ']' then ['[', c, ']'] else [c]

end ScriptBundler.Glob
