/-!
# Json with comments

Comments begin with two slashes and end with the line, or stand between a slash with a star and a star with a slash.
`withoutComments` takes them out, except what looks like one inside a string; the end of the line stays. A comment
without end reaches to the end of the text.
-/

namespace ScriptBundler.Json

/-- Where a character stands. -/
inductive Place where
  | code
  | string
  | lineComment
  /-- Whether the character in front is a star inside the comment. -/
  | blockComment (afterStar : Bool)
  deriving DecidableEq, Inhabited, Repr

/-- Takes comments out of a text that begins at the given place. -/
def withoutCommentsFrom : Place → List Char → List Char
  | _, [] => []
  | .code, '/' :: '/' :: cs => withoutCommentsFrom .lineComment cs
  | .code, '/' :: '*' :: cs => withoutCommentsFrom (.blockComment false) cs
  | .code, c :: cs => c :: withoutCommentsFrom (if c = '\x22' then .string else .code) cs
  | .string, '\\' :: c :: cs => '\\' :: c :: withoutCommentsFrom .string cs
  | .string, c :: cs => c :: withoutCommentsFrom (if c = '\x22' then .code else .string) cs
  | .lineComment, c :: cs =>
    if c = '\n' then c :: withoutCommentsFrom .code cs else withoutCommentsFrom .lineComment cs
  | .blockComment afterStar, c :: cs =>
    if afterStar ∧ c = '/' then withoutCommentsFrom .code cs
    else withoutCommentsFrom (.blockComment (c = '*')) cs

/-- A text without its comments. -/
def withoutComments (text : String) : String := String.ofList (withoutCommentsFrom .code text.toList)

end ScriptBundler.Json
