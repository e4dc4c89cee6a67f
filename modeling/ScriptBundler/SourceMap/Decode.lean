import ScriptBundler.Decimal.Shortest
import ScriptBundler.Json.Record
import ScriptBundler.SourceMap.DebugId
import ScriptBundler.SourceMap.Vlq

/-!
# Reading source maps

* `RawMap.reading` reads the members of a written map, whatever their order; `decodeRegular` turns them into tokens;
* `SourceMap.decode` reads a map of the plain kind. Maps of other kinds are refused, but their own faults come first.
-/

namespace ScriptBundler

open Json (Reading)

/-- The members of a written source map. -/
structure RawMap where
  file : Option Json.Value := none
  sources : List (Option String) := []
  sourceRoot : Option String := none
  contents : List (Option String) := []
  /-- The maps of an index of maps. -/
  sections : Option (List (Option RawMap)) := none
  names : List Json.Value := []
  rangeMappings : String := ""
  mappings : String := ""
  ignored : List Nat := []
  /-- Whether there are scopes. -/
  scopes : Bool := false
  debugId : Option String := none
  oldDebugId : Option String := none
  deriving Inhabited

namespace RawMap

/-- The members that are known, in the order in which a list gives them. -/
inductive Field where
  | version | file | sources | sourceRoot | contents | sections | names | rangeMappings | mappings | ignored
  | offsets | modulePaths | scopes | debugId | oldDebugId
  deriving DecidableEq, Inhabited, Repr

def Field.all : List Field :=
  [.version, .file, .sources, .sourceRoot, .contents, .sections, .names, .rangeMappings, .mappings, .ignored,
    .offsets, .modulePaths, .scopes, .debugId, .oldDebugId]

def Field.name : Field → String
  | .version => "version"
  | .file => "file"
  | .sources => "sources"
  | .sourceRoot => "sourceRoot"
  | .contents => "sourcesContent"
  | .sections => "sections"
  | .names => "names"
  | .rangeMappings => "rangeMappings"
  | .mappings => "mappings"
  | .ignored => "ignoreList"
  | .offsets => "x_facebook_offsets"
  | .modulePaths => "x_metro_module_paths"
  | .scopes => "x_facebook_sources"
  | .debugId => "debugId"
  | .oldDebugId => "debug_id"

def Field.named? (name : String) : Option Field := Field.all.find? (·.name = name)

/-- A debug identifier. -/
def debugIdReading : Reading String := do
  match DebugId.canonical? (← Reading.text) with
  | some id => return id
  | none => Reading.fail .mistyped

/-- Reads one member of a written map; `nested` reads a map within. -/
def field (nested : Nat → Reading RawMap) (depth : Nat) (m : RawMap) : Field → Reading RawMap
  | .version => do let _ ← Reading.optional Reading.natural; return m
  | .file => return { m with file := ← Reading.optional (Reading.value depth) }
  | .sources => return { m with sources := (← texts).getD [] }
  | .sourceRoot => return { m with sourceRoot := ← Reading.optional Reading.text }
  | .contents => return { m with contents := (← texts).getD [] }
  | .sections => return { m with sections := ← Reading.optional (Reading.list depth part) }
  | .names => return { m with names := (← Reading.optional (Reading.list depth Reading.value)).getD [] }
  | .rangeMappings => return { m with rangeMappings := (← Reading.optional Reading.text).getD "" }
  | .mappings => return { m with mappings := (← Reading.optional Reading.text).getD "" }
  | .ignored => return { m with ignored := (← Reading.optional (Reading.list depth fun _ => Reading.natural)).getD [] }
  | .offsets => do
    let _ ← Reading.optional (Reading.list depth fun _ => Reading.optional Reading.natural)
    return m
  | .modulePaths => do
    let _ ← Reading.optional (Reading.list depth fun _ => Reading.text)
    return m
  | .scopes => do
    let scopes ← Reading.optional
      (Reading.list depth fun d => Reading.optional (Reading.list d scope))
    return { m with scopes := scopes.isSome }
  | .debugId => return { m with debugId := ← Reading.optional debugIdReading }
  | .oldDebugId => return { m with oldDebugId := ← Reading.optional debugIdReading }
where
  texts : Reading (Option (List (Option String))) :=
    Reading.optional (Reading.list depth fun _ => Reading.optional Reading.text)
  named (all : List String) (name : String) : Option String := all.find? (· = name)
  scope (d : Nat) : Reading Unit :=
    let all := ["names", "mappings"]
    Reading.record d ⟨named all, all, all, false⟩ (fun d _ f => do
      if f = "names" then let _ ← Reading.list d fun _ => Reading.text
      else let _ ← Reading.text) ()
  offset (d : Nat) : Reading Unit :=
    let all := ["line", "column"]
    Reading.record d ⟨named all, all, all, false⟩ (fun _ _ _ => do let _ ← Reading.natural) ()
  part (d : Nat) : Reading (Option RawMap) :=
    let all := ["offset", "url", "map"]
    Reading.record d ⟨named all, all, ["offset"], false⟩ (fun d map f => do
      if f = "offset" then offset d; return map
      else if f = "url" then let _ ← Reading.optional Reading.text; return map
      else Reading.optional (nested d)) none

/-- A written map, its maps within nested at most `fuel` deep. -/
def readingWithin : Nat → Nat → Reading RawMap
  | 0, _ => Reading.fail .malformed
  | fuel + 1, depth =>
    Reading.record depth ⟨Field.named?, Field.all, [], false⟩ (field (readingWithin fuel)) {}

/-- A written map. -/
def reading : Reading RawMap := readingWithin (Json.maxDepth + 1) Json.maxDepth

end RawMap

namespace SourceMap

/-- The parts of bytes between the given ones. -/
def splitAt (separator : UInt8) : List UInt8 → List (List UInt8)
  | [] => [[]]
  | b :: bs =>
    if b = separator then [] :: splitAt separator bs
    else match splitAt separator bs with
      | [] => [[b]]
      | p :: ps => (b :: p) :: ps

/-- The flags of a line of range mappings, six to a symbol, lowest first. -/
def flags : List UInt8 → Except MapFault (List Bool)
  | [] => .ok []
  | b :: bs => match Text.Base64.value? b with
    | none => .error (.rangeSymbol b)
    | some n => do return (List.range 6).map (fun i => decide (n / Nat.pow 2 i % 2 = 1)) ++ (← flags bs)

/-- A number of 32 bits after a change. -/
def moved (n : Nat) (change : Int) : Nat := ((n + change) % UInt32.size).toNat

/-- Where the last mapping stood; only the column starts anew on each line. -/
structure Position where
  column : Nat := 0
  source : Nat := 0
  sourceLine : Nat := 0
  sourceColumn : Nat := 0
  name : Nat := 0
  deriving DecidableEq, Inhabited

/-- The token of a segment. -/
def segment (sources names line : Nat) (isRange : Bool) (at_ : Position) (bytes : List UInt8) :
    Except MapFault (Position × Token) := do
  match ← Vlq.decode bytes with
  | [c] =>
    let p := { at_ with column := moved at_.column c }
    return (p, ⟨line, p.column, p.sourceLine, p.sourceColumn, none, none, isRange⟩)
  | c :: s :: l :: k :: rest =>
    if rest.length > 1 then throw (.segmentSize (4 + rest.length))
    let p := { at_ with column := moved at_.column c, source := moved at_.source s }
    if p.source ≥ sources then throw (.sourceReference p.source)
    let p := { p with sourceLine := moved p.sourceLine l, sourceColumn := moved p.sourceColumn k }
    match rest with
    | n :: _ =>
      let p := { p with name := moved p.name n }
      if p.name ≥ names then throw (.nameReference p.name)
      return (p, ⟨line, p.column, p.sourceLine, p.sourceColumn, some p.source, some p.name, isRange⟩)
    | [] => return (p, ⟨line, p.column, p.sourceLine, p.sourceColumn, some p.source, none, isRange⟩)
  | ns => throw (.segmentSize ns.length)

/-- The tokens of the segments of a line; empty segments count for the flags only. -/
def segments (sources names line : Nat) (at_ : Position) :
    List (List UInt8) → List Bool → Except MapFault (Position × List Token)
  | [], _ => .ok (at_, [])
  | s :: rest, fs => do
    if s.isEmpty then segments sources names line at_ rest (fs.drop 1)
    else
      let (p, t) ← segment sources names line (fs.headD false) at_ s
      let (p, ts) ← segments sources names line p rest (fs.drop 1)
      return (p, t :: ts)

/-- The tokens of lines, each with its range flags. -/
def lines (sources names : Nat) (line : Nat) (at_ : Position) :
    List (List UInt8) → List (List UInt8) → Except MapFault (List Token)
  | [], _ => .ok []
  | l :: rest, ranges => do
    if l.isEmpty then lines sources names (line + 1) at_ rest (ranges.drop 1)
    else
      let fs ← flags (ranges.headD [])
      let (p, ts) ← segments sources names line { at_ with column := 0 } (splitAt 44 l) fs
      return ts ++ (← lines sources names (line + 1) p rest (ranges.drop 1))

/-- A name, given as any value. -/
def nameOf : Json.Value → String
  | .string s => s
  | .number (.natural n) => toString n
  | .number (.negative n) => "-" ++ toString n
  | .number (.float x) => Decimal.ofFloat x
  | _ => ""

/-- Inserts a number into an ascending list without repetition. -/
def insertAscending (n : Nat) : List Nat → List Nat
  | [] => [n]
  | m :: ms => if n < m then n :: m :: ms else if n = m then m :: ms else m :: insertAscending n ms

/-- The map of the plain kind with the given members. -/
def decodeRegular (raw : RawMap) : Except MapFault SourceMap := do
  let tokens ← lines raw.sources.length raw.names.length 0 {} (splitAt 59 raw.mappings.toUTF8.toList)
    (splitAt 59 raw.rangeMappings.toUTF8.toList)
  return {
    file := raw.file.map fun
      | .string s => s
      | _ => "<invalid>"
    sources := raw.sources.map (·.getD "")
    sourceRoot := raw.sourceRoot
    contents := raw.contents
    names := raw.names.map nameOf
    tokens := sortTokens tokens
    ignored := raw.ignored.foldl (fun ns n => insertAscending n ns) []
    debugId := raw.debugId.or raw.oldDebugId }

/-- The faults of a map of any kind; the argument bounds how deep maps stand in each other. -/
def check : Nat → RawMap → Except MapFault Unit
  | 0, _ => .error .badJson
  | fuel + 1, raw => match raw.sections with
    | some parts => parts.forM fun part => match part with
      | some map => check fuel map
      | none => .ok ()
    | none => do let _ ← decodeRegular raw

/-- What stands behind the guard: quotes and closing brackets, and all up to the end of their line. -/
def withoutGuard (bytes : List UInt8) : Except MapFault (List UInt8) :=
  match bytes with
  | [] => .ok []
  | b :: _ => if isGuard b then go false bytes else .ok bytes
where
  isGuard (b : UInt8) : Bool := b = 41 || b = 93 || b = 125 || b = 39
  go (newline : Bool) : List UInt8 → Except MapFault (List UInt8)
    | [] => .ok []
    | b :: rest =>
      if newline ∧ b ≠ 10 then .error .badGuard
      else if isGuard b then go newline rest
      else if b = 13 then go true rest
      else if b = 10 then .ok (b :: rest)
      else go newline rest

/-- Reads a map of the plain kind. -/
def decode (bytes : List UInt8) : Except MapFault SourceMap := do
  match Reading.readAll RawMap.reading (← withoutGuard bytes) with
  | .error _ => throw .badJson
  | .ok raw =>
    if raw.sections.isSome then
      check (Json.maxDepth + 1) raw
      throw .otherKind
    let map ← decodeRegular raw
    if raw.scopes then throw .otherKind
    return map

end SourceMap

end ScriptBundler
