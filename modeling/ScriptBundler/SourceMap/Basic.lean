import ScriptBundler.Sorting

/-!
# Source maps

A source map tells for places of an output where they come from. Its tokens stand in the order of their places in the
output; a token may name a source and a symbol, which are kept as places in the lists of sources and names.

* `sortTokens` puts tokens in order;
* `sourceNames` are the sources under the source root, `content?` is the text of one.
-/

namespace ScriptBundler

/-- A place of the output and what it comes from. -/
structure Token where
  line : Nat
  column : Nat
  sourceLine : Nat
  sourceColumn : Nat
  /-- The place of the source in the list of sources. -/
  source : Option Nat
  /-- The place of the symbol in the list of names. -/
  name : Option Nat
  /-- Whether the token speaks for all text up to the next one. -/
  isRange : Bool
  deriving DecidableEq, Inhabited, Repr

/-- Tokens are ordered by their places in the output. -/
def Token.less (s t : Token) : Bool := s.line < t.line || (s.line = t.line && s.column < t.column)

structure SourceMap where
  file : Option String := none
  sources : List String := []
  sourceRoot : Option String := none
  /-- The texts of the sources, as far as they are known. -/
  contents : List (Option String) := []
  names : List String := []
  tokens : List Token := []
  /-- Sources that tools are to pass over, in ascending order. -/
  ignored : List Nat := []
  debugId : Option String := none
  deriving DecidableEq, Inhabited, Repr

namespace SourceMap

/-- Tokens in their order. -/
def sortTokens (tokens : List Token) : List Token := Sorting.sortBy Token.less tokens

/-- Whether a source needs no root in front. -/
def isRooted (source : String) : Bool :=
  source.startsWith "/" || source.startsWith "http:" || source.startsWith "https:"

/-- A source below a root; a slash at the end of the root counts for nothing. -/
def underRoot (root source : String) : String :=
  if isRooted source then source
  else
    let cs := root.toList
    let cs := if cs.getLast? = some '/' then cs.dropLast else cs
    String.ofList cs ++ "/" ++ source

/-- The sources with the source root in front. -/
def sourceNames (m : SourceMap) : List String :=
  match m.sourceRoot with
  | some root => if root = "" then m.sources else m.sources.map (underRoot root)
  | none => m.sources

/-- The text of the source at a place. -/
def content? (m : SourceMap) (source : Nat) : Option String := m.contents[source]?.join

end SourceMap

/-- What can be wrong with a written source map. -/
inductive MapFault where
  /-- A carriage return in the guard in front is not followed by a newline. -/
  | badGuard
  | badJson
  /-- A segment ends within a number. -/
  | unfinishedNumber
  | noNumbers
  | hugeNumber
  | segmentSize (n : Nat)
  | sourceReference (n : Nat)
  | nameReference (n : Nat)
  /-- A byte in the range flags that is no symbol. -/
  | rangeSymbol (byte : UInt8)
  /-- The map is of another kind: an index of maps, or one with scopes. -/
  | otherKind
  deriving DecidableEq, Inhabited, Repr

end ScriptBundler
