import ScriptBundler.SourceMap.Decode
import ScriptBundler.SourceMap.Encode
import ScriptBundler.Text.Blank

/-!
# Source maps within code

The last line of a code may be a comment that holds its map in base 64.

* `comment` is that line for a map;
* `extract` takes it off, if it is there.
-/

namespace ScriptBundler.SourceMap

/-- What opens the comment. -/
def commentOpening : String := "//# sourceMappingURL="

/-- What opened it in former days. -/
def oldCommentOpening : String := "//@ sourceMappingURL="

/-- The address in front of a map in base 64. -/
def dataOpening : String := "data:application/json;charset=utf-8;base64,"

/-- The comment that holds a map. -/
def comment (m : SourceMap) : String :=
  commentOpening ++ dataOpening ++ Text.Base64.encode m.encode.toUTF8

/-- What is left behind an opening. -/
def behind? (opening : String) (cs : List Char) : Option (List Char) :=
  if opening.toList.isPrefixOf cs then some (cs.drop opening.length) else none

/-- What is left behind the first place of a mark. -/
def behindFirst? (mark : String) : List Char → Option (List Char)
  | [] => behind? mark []
  | c :: cs => match behind? mark (c :: cs) with
    | some rest => some rest
    | none => behindFirst? mark cs

/-- The code in front of its last line, and that line; white space at the end does not count. -/
def lastLine (code : List Char) : List Char × List Char :=
  let cs := Text.trimEnd code
  (Text.dropEndWhile (· ≠ '\n') cs, (cs.reverse.takeWhile (· ≠ '\n')).reverse)

/-- The base 64 text in a comment line that holds a map. -/
def payload? (line : List Char) : Option (List Char) := do
  let url ← (behind? commentOpening line).or (behind? oldCommentOpening line)
  let rest ← behind? "data:application/json" url
  behindFirst? "base64," rest

/-- Why the comment of a code does not hold a map. -/
inductive InlineFault where
  | encoding (e : Text.Base64.DecodeError)
  | map (e : MapFault)
  deriving DecidableEq, Inhabited, Repr

/-- Takes the map off a code that has one within. -/
def extract (code : String) : Except InlineFault (Option (String × SourceMap)) :=
  let (front, line) := lastLine code.toList
  match payload? line with
  | none => .ok none
  | some payload =>
    match Text.Base64.decode (String.ofList (Text.trim payload)) with
    | .error e => .error (.encoding e)
    | .ok bytes => match decode bytes.toList with
      | .error e => .error (.map e)
      | .ok m => .ok (some (String.ofList (Text.dropEndWhile (· = '\n') front), m))

end ScriptBundler.SourceMap
