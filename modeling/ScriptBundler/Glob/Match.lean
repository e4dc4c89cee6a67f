import ScriptBundler.Glob.Pattern

/-!
# Texts that match a pattern

* `Token.matchAll` decides whether tokens fill a whole text. It tries the shortest run for each star first, and gives
  up a star early when the tokens behind it ran out of text (`Outcome.exhausted`), since a longer run only leaves
  them less;
* `pathMatches` is the reading of patterns for paths: a star stays between two slashes, and a faulty pattern matches
  nothing.
-/

namespace ScriptBundler.Glob

/-- The result of an attempt. -/
inductive Outcome where
  | matched
  | failed
  /-- The text ended before the tokens did. -/
  | exhausted
  deriving DecidableEq, Inhabited, Repr

/-- Whether one character satisfies a token. With `strict`, only a slash itself stands for a slash. -/
def Token.accepts (strict : Bool) (c : Char) : Token → Bool
  | .char d => c = d
  | .anyChar => !(strict && c = '/')
  | .within ms => !(strict && c = '/') && ms.any (·.contains c)
  | .without ms => !(strict && c = '/') && !ms.any (·.contains c)
  | .anyRun => false
  | .anyDirectories => false

/-- Tries ever longer runs. Whole directories end behind a slash or at the end of the text; with `strict` a plain run
ends before a slash. -/
def tryRuns (rest : List Char → Outcome) (strict directories : Bool) : List Char → Outcome
  | [] => rest []
  | c :: cs =>
    if directories ∧ c ≠ '/' then tryRuns rest strict directories cs
    else if ¬ directories ∧ strict ∧ c = '/' then .failed
    else match rest cs with
      | .failed => tryRuns rest strict directories cs
      | outcome => outcome

/-- Whether tokens fill a text. -/
def attempt (strict : Bool) : List Token → List Char → Outcome
  | [], [] => .matched
  | [], _ :: _ => .failed
  | token :: tokens, cs =>
    if token = .anyRun ∨ token = .anyDirectories then
      match attempt strict tokens cs with
      | .failed => tryRuns (attempt strict tokens) strict (token = .anyDirectories) cs
      | outcome => outcome
    else match cs with
      | [] => .exhausted
      | c :: cs => if token.accepts strict c then attempt strict tokens cs else .failed

/-- Whether the tokens fill the text. -/
def matchAll (strict : Bool) (tokens : List Token) (text : String) : Bool :=
  attempt strict tokens text.toList = .matched

/-- Whether the text of a path matches a pattern. -/
def pathMatches (text pattern : String) : Bool :=
  match parse pattern with
  | .ok tokens => matchAll true tokens text
  | .error _ => false

end ScriptBundler.Glob
