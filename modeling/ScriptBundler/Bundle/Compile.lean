import ScriptBundler.Bundle.Basic
import ScriptBundler.SourceMap.Inline

/-!
# Compiling

An output is the code of files, one block after the other, with a map that leads back to them.

* `requested` are the paths to compile: entries as they are given, all else expanded as patterns;
* `workingList` are the files of the output: in front of an entry that carries the common files stand these, and they
  are left out elsewhere as soon as they have a destination;
* `assemble` loads the files, one event each, and `Compiled.render` is the output with its map as the last line.
-/

namespace ScriptBundler

/-- An output in parts. -/
structure Compiled where
  /-- The code of each file. -/
  blocks : List String
  map : SourceMap
  /-- The line of the map on which each file starts. -/
  offsets : List Nat
  /-- The files in their order. -/
  traced : List Path
  /-- The entries. -/
  bundled : List Path
  /-- What stands between blocks. -/
  joiner : String
  deriving Inhabited

/-- The blocks with the joiner between them. -/
def Compiled.code (c : Compiled) : String := String.intercalate c.joiner c.blocks

/-- The code, the joiner, and the map as a comment. -/
def Compiled.render (c : Compiled) : String := c.code ++ c.joiner ++ c.map.comment

namespace Bundle

variable {σ : Type}

/-- The paths to compile: entries as they are given, all else expanded. -/
def requested (c : Collaborators σ) (b : Bundle) : List Path → Action σ (List Path)
  | [] => return []
  | p :: ps => do
    let here ← if b.isEntry p then pure [p] else expand c [p.text]
    return here ++ (← requested c b ps)

/-- Whether an entry carries the common files in front of its own. -/
def isCarrier (b : Bundle) (entry : Path) : Bool :=
  b.options.common.pattern?.any (Glob.pathMatches entry.text)

/-- The files of one entry. -/
def filesOf (c : Collaborators σ) (b : Bundle) (entry : Path) : Action σ (List Path) := do
  let traced := (← c.trace [entry]).map (·.path)
  let own := if b.destination.isSome then traced.filter (!b.partition.common.contains ·) else traced
  return (if b.isCarrier entry then b.partition.common.toList else []) ++ own

/-- The files of an output and its entries; paths that are no entries are passed over. -/
def workingList (c : Collaborators σ) (b : Bundle) : List Path → Action σ (List Path × List Path)
  | [] => return ([], [])
  | p :: ps => do
    if b.isEntry p then
      let files ← b.filesOf c p
      let (traced, bundled) ← workingList c b ps
      return (files ++ traced, p :: bundled)
    else workingList c b ps

/-- What has been assembled of an output. -/
structure Assembly where
  blocks : List String := []
  combined : SourceMap.Combined := {}
  /-- The line of the map on which the next file starts. -/
  line : Nat := 0
  deriving Inhabited

/-- Loads the files that are left and puts them into an output. -/
def assembleFrom (c : Collaborators σ) (traced bundled : List Path) (index : Nat) (a : Assembly) :
    List Path → Action σ Assembly
  | [] => return a
  | p :: ps => do
    let file ← (c.load p).during (.loadFile p)
    modify (c.emit ⟨p, index, traced, bundled⟩)
    assembleFrom c traced bundled (index + 1)
      { blocks := a.blocks ++ [file.code]
        combined := a.combined.addFile file.map a.line
        line := (a.line + SourceMap.lineCount file.code) % UInt32.size } ps

/-- The output of files. -/
def assemble (c : Collaborators σ) (b : Bundle) (traced bundled : List Path) : Action σ Compiled := do
  let a ← assembleFrom c traced bundled 0 {} traced
  return ⟨a.blocks, a.combined.finish, a.combined.offsets, traced, bundled, b.options.joiner⟩

/-- The output of paths, or of all entries. -/
def compileOutput (c : Collaborators σ) (b : Bundle) (paths : Option (List Path)) : Action σ Compiled := do
  let entries ← match paths with
    | some ps => b.requested c ps
    | none => pure b.files
  let (traced, bundled) ← b.workingList c entries
  b.assemble c traced bundled

/-- The output of paths as text. -/
def compile (c : Collaborators σ) (b : Bundle) (paths : Option (List Path)) : Action σ String :=
  return (← b.compileOutput c paths).render

/-- The output of the common files. -/
def compileCommon (c : Collaborators σ) (b : Bundle) : Action σ String :=
  return (← b.assemble c b.partition.common.toList []).render

/-- The code of a file, or nothing if no entry needs it. -/
def compileOne (c : Collaborators σ) (b : Bundle) (p : Path) : Action σ String :=
  if b.traced.contains p then return (← c.load p).code else return ""

end Bundle

end ScriptBundler
