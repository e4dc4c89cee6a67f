import ScriptBundler.Json.Quoted
import ScriptBundler.SourceMap.Vlq

/-!
# Writing source maps

`SourceMap.encode` is the written form of a map: its members in a fixed order, those without content left out. The
mappings give each token by its distance from the one before; a token equal to the one before it in its line is left
out.
-/

namespace ScriptBundler.SourceMap

/-- What the next mapping is measured from. -/
structure Origin where
  line : Nat := 0
  column : Nat := 0
  source : Nat := 0
  sourceLine : Nat := 0
  sourceColumn : Nat := 0
  name : Nat := 0
  deriving DecidableEq, Inhabited

def change (new old : Nat) : List Char := Vlq.encode ((new : Int) - old)

/-- The mapping of a token, and the origin for the next one. -/
def mapping (o : Origin) (t : Token) : List Char × Origin :=
  let column := if t.line = o.line then o.column else 0
  let o := { o with line := t.line, column := t.column }
  match t.source with
  | none => (change t.column column, o)
  | some s =>
    let place := change t.column column ++ change s o.source ++ change t.sourceLine o.sourceLine ++
      change t.sourceColumn o.sourceColumn
    let o' := { o with source := s, sourceLine := t.sourceLine, sourceColumn := t.sourceColumn }
    match t.name with
    | none => (place, o')
    | some n => (place ++ change n o.name, { o' with name := n })

/-- The mappings of tokens behind the token `before`. -/
def mappingsFrom (o : Origin) (before : Option Token) : List Token → List Char
  | [] => []
  | t :: ts =>
    if t.line = o.line ∧ before = some t then mappingsFrom o (some t) ts
    else
      let gap := if t.line ≠ o.line then List.replicate (t.line - o.line) ';'
        else if before.isSome then [','] else []
      let (text, o) := mapping o t
      gap ++ text ++ mappingsFrom o (some t) ts

/-- The mappings of a map. -/
def mappings (m : SourceMap) : String := String.ofList (mappingsFrom {} none m.tokens)

/-- The symbols of flags, six to a symbol, lowest first; flags that are not set are left out at the end. -/
def flagSymbols (set : List Nat) : List Char :=
  match set.max? with
  | none => []
  | some top => (List.range (top / 6 + 1)).map fun i =>
      let n := (List.range 6).foldl (fun n j => if set.contains (6 * i + j) then n + Nat.pow 2 j else n) 0
      Char.ofNat (Text.Base64.symbol n).toNat

/-- The range flags of tokens, from the token with the given index on. A flag is counted from the first token of the
line that was begun before its own token was reached. -/
def rangesFrom (line start index : Nat) (set : List Nat) : List Token → List Char
  | [] => flagSymbols set
  | t :: ts =>
    let set := if t.isRange then (index - start) :: set else set
    if t.line = line then rangesFrom line start (index + 1) set ts
    else flagSymbols set ++ List.replicate (t.line - line) ';' ++ rangesFrom t.line index (index + 1) [] ts

/-- The range mappings of a map, if any token speaks for a range. -/
def rangeMappings? (m : SourceMap) : Option String :=
  if m.tokens.any (·.isRange) then some (String.ofList (rangesFrom 0 0 0 [] m.tokens)) else none

/-- The written form of a map. -/
def encode (m : SourceMap) : String :=
  let contents := (List.range m.sources.length).map m.content?
  let member (name : String) (text : Option String) : List (String × String) :=
    match text with
    | some t => [(name, t)]
    | none => []
  Json.brace <|
    [("version", "3")] ++
    member "file" (m.file.map Json.quote) ++
    [("sources", Json.bracket (m.sources.map Json.quote))] ++
    member "sourceRoot" (m.sourceRoot.map Json.quote) ++
    (if contents.any Option.isSome then
      [("sourcesContent", Json.bracket (contents.map fun c => (c.map Json.quote).getD "null"))] else []) ++
    [("names", Json.bracket (m.names.map Json.quote))] ++
    member "rangeMappings" (m.rangeMappings?.map Json.quote) ++
    [("mappings", Json.quote m.mappings)] ++
    (if m.ignored.isEmpty then [] else [("ignoreList", Json.bracket (m.ignored.map toString))]) ++
    member "debugId" (m.debugId.map Json.quote)

end ScriptBundler.SourceMap
