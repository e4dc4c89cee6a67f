import ScriptBundler.SourceMap.Basic

/-!
# Building source maps

A builder collects tokens. Sources and names are kept once each: adding one that is there already answers with its
place.

* `finish` puts the tokens in order;
* `identity` is the map of a text onto itself, one token to a line;
* `addMap` takes in the map of a text that starts on a given line, and `Combined` remembers these lines.

Lines are numbers of 32 bits: a sum of them that is larger starts again at zero.
-/

namespace ScriptBundler.SourceMap

/-- The number of lines of a text, counted in 32 bits; a newline at the end begins one more. -/
def lineCount (code : String) : Nat := (code.toList.count '\n' + 1) % UInt32.size

structure Builder where
  /-- The sources with their texts. -/
  sources : List (String × Option String) := []
  names : List String := []
  tokens : List Token := []
  deriving DecidableEq, Inhabited

namespace Builder

/-- The place of a source, new or old. -/
def addSource (b : Builder) (source : String) : Nat × Builder :=
  match b.sources.findIdx? (·.1 = source) with
  | some i => (i, b)
  | none => (b.sources.length, { b with sources := b.sources ++ [(source, none)] })

/-- Gives the source at a place its text. -/
def setContent (b : Builder) (place : Nat) (content : String) : Builder :=
  { b with sources := b.sources.modify place fun (s, _) => (s, some content) }

/-- The place of a name, new or old. -/
def addName (b : Builder) (name : String) : Nat × Builder :=
  match b.names.findIdx? (· = name) with
  | some i => (i, b)
  | none => (b.names.length, { b with names := b.names ++ [name] })

def finish (b : Builder) : SourceMap where
  sources := b.sources.map (·.1)
  contents := b.sources.map (·.2)
  names := b.names
  tokens := sortTokens b.tokens

/-- Adds sources with their texts, and answers with their places. -/
def addSources (b : Builder) : List (String × Option String) → List Nat × Builder
  | [] => ([], b)
  | (source, content) :: rest =>
    let (place, b) := b.addSource source
    let b := match content with
      | some c => b.setContent place c
      | none => b
    let (places, b) := b.addSources rest
    (place :: places, b)

/-- Adds names, and answers with their places. -/
def addNames (b : Builder) : List String → List Nat × Builder
  | [] => ([], b)
  | name :: rest =>
    let (place, b) := b.addName name
    let (places, b) := b.addNames rest
    (place :: places, b)

/-- The token of a text that starts on line `offset`, its source and name renumbered. -/
def shifted (sources names : List Nat) (offset : Nat) (t : Token) : Token :=
  { t with
    line := (t.line + offset) % UInt32.size
    source := t.source.bind (sources[·]?)
    name := t.name.bind (names[·]?)
    isRange := false }

/-- Takes in the map of a text that starts on line `offset`. -/
def addMap (b : Builder) (m : SourceMap) (offset : Nat) : Builder :=
  let (sources, b) := b.addSources (m.sourceNames.zipIdx.map fun (s, i) => (s, m.content? i))
  let (names, b) := b.addNames m.names
  { b with tokens := b.tokens ++ m.tokens.map (shifted sources names offset) }

end Builder

/-- The map of a text onto itself. -/
def identity (source code : String) : SourceMap :=
  let (place, b) := Builder.addSource {} source
  let b := b.setContent place code
  let tokens := (List.range (lineCount code)).map fun line => ⟨line, 0, line, 0, some place, none, false⟩
  { b with tokens }.finish

/-- The map of a text put together from files, and the line on which each file starts. -/
structure Combined where
  builder : Builder := {}
  offsets : List Nat := []
  deriving DecidableEq, Inhabited

/-- Takes in the map of one more file. -/
def Combined.addFile (c : Combined) (m : SourceMap) (offset : Nat) : Combined :=
  ⟨c.builder.addMap m offset, c.offsets ++ [offset]⟩

def Combined.finish (c : Combined) : SourceMap := c.builder.finish

end ScriptBundler.SourceMap
