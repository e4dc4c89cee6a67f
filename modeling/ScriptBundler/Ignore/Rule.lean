import ScriptBundler.Ignore.Match
import ScriptBundler.Text.Blank

/-!
# Ignore rules

A line of an ignore file is a rule, a comment or blank. A rule drops the paths that match its pattern, or keeps them
if it begins with an exclamation mark; with a slash at its end it speaks of directories only.

* a pattern without a slash matches in every directory, one with a slash from the directory of its file on;
* of the rules of a file that speak of a path the last one decides (`verdict`).
-/

namespace ScriptBundler.Ignore

/-- What rules say of a path. -/
inductive Verdict where
  | silent
  | drops
  | keeps
  deriving DecidableEq, Inhabited, Repr

/-- The first of two verdicts that is not silent. -/
def Verdict.orElse : Verdict → Verdict → Verdict
  | .silent, v => v
  | v, _ => v

/-- The first verdict of a list that is not silent. -/
def Verdict.first (vs : List Verdict) : Verdict := vs.foldr Verdict.orElse .silent

/-- A line of an ignore file. -/
structure Rule where
  pattern : List Token
  keeps : Bool := false
  directoriesOnly : Bool := false
  deriving Inhabited, Repr

/-- What a rule says of a path, which is given by its bytes. -/
def Rule.verdict (r : Rule) (bs : List UInt8) (isDirectory : Bool) : Verdict :=
  if (r.directoriesOnly ∧ ¬ isDirectory) ∨ ¬ isMatch r.pattern bs then .silent
  else if r.keeps then .keeps else .drops

/-- What the last rule says that speaks of a path. -/
def verdict (rules : List Rule) (bs : List UInt8) (isDirectory : Bool) : Verdict :=
  .first (rules.reverse.map (·.verdict bs isDirectory))

/-- The text of a rule with all it says of the place of its pattern written out: in any directory unless it has a
slash, and not the directory itself if two stars stand at its end. -/
def placed (isAnchored : Bool) (cs : List Char) : List Char :=
  let anywhere := ['*', '*', '/']
  let cs :=
    if isAnchored ∨ cs.contains '/' ∨ cs = ['*', '*'] then cs else anywhere ++ cs
  if ['/', '*', '*'].isSuffixOf cs then cs ++ ['/', '*'] else cs

/-- Reads a rule without blanks at its end. -/
def ruleOf (line : List Char) : Except Fault Rule :=
  let (keeps, isAnchored, cs) : Bool × Bool × List Char := match line with
    | '\\' :: '!' :: cs => (false, false, '!' :: cs)
    | '\\' :: '#' :: cs => (false, false, '#' :: cs)
    | '!' :: '/' :: cs => (true, true, cs)
    | '!' :: cs => (true, false, cs)
    | '/' :: cs => (false, true, cs)
    | cs => (false, false, cs)
  let directoriesOnly := cs.getLast? = some '/'
  let cs := if directoriesOnly then (if ['\\', '/'].isSuffixOf cs then cs.dropLast.dropLast else cs.dropLast) else cs
  match read (placed isAnchored cs) with
  | .ok pattern => .ok { pattern, keeps, directoriesOnly }
  | .error e => .error e

/-- Reads a line; comments and blank lines are none. Blanks at the end do not count, unless the last one stands behind
a backslash. -/
def ruleOfLine? (line : List Char) : Option (Except Fault Rule) :=
  let kept := if ['\\', ' '].isSuffixOf line then line else Text.trimEnd line
  if line.head? = some '#' ∨ kept = [] then none else some (ruleOf kept)

/-- The rules of an ignore file, and whether it has faulty lines too. -/
structure RuleFile where
  rules : List Rule := []
  isFaulty : Bool := false
  deriving Inhabited, Repr

/-- The lines of a text, without the line feeds and the carriage returns in front of them. `line` is what has been read
of the line so far, backwards. -/
def lines (line : List UInt8) : List UInt8 → List (List UInt8)
  | [] => if line.isEmpty then [] else [line.reverse]
  | b :: bs =>
    if b = 0x0A then (if line.head? = some 0x0D then line.tail else line).reverse :: lines [] bs
    else lines (b :: line) bs

/-- The lines that are text, up to the first one that is not. -/
def textLines (bs : List UInt8) : List (List Char) :=
  (((lines [] bs).map fun l => String.fromUTF8? ⟨l.toArray⟩).takeWhile Option.isSome).filterMap
    fun l => l.map String.toList

/-- Reads an ignore file. A byte order mark in front does not count. -/
def RuleFile.ofBytes (bs : List UInt8) : RuleFile :=
  let found := match textLines bs with
    | [] => []
    | first :: rest => (first.dropWhile (· = '\ufeff') :: rest).filterMap ruleOfLine?
  { rules := found.filterMap fun r => r.toOption
    isFaulty := found.any fun r => !r.toBool }

end ScriptBundler.Ignore
