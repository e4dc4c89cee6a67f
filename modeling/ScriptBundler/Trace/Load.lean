import ScriptBundler.Bundle.Basic
import ScriptBundler.SourceMap.Inline

/-!
# Loading files

A file is loaded with the map it holds within, or with one onto itself that names it by its path below the root. It
is loaded again when the time of its last change is another.
-/

namespace ScriptBundler

/-- A file as it was loaded, and when it was last changed then. -/
structure LoadedFile where
  path : Path
  modified : Option Nat
  file : SourceFile
  deriving Inhabited

abbrev LoadMemory := List LoadedFile

/-- The name of a file in its map. -/
def sourceName (root p : Path) : String := ((p.stripPrefix? root).getD p).text

/-- Loads a file from a disk. -/
def loadFresh (root : Path) (d : Disk) (p : Path) : Attempted SourceFile := do
  let text ← (Attempted.of .disk (d.readText p)).during (.readFile p)
  match ← (extracted text).during (.readInlineMapOf p) with
  | some (code, map) => return ⟨code, map⟩
  | none => return ⟨text, SourceMap.identity (sourceName root p) text⟩
where
  /-- The map that a text holds within. -/
  extracted (text : String) : Attempted (Option (String × SourceMap)) :=
    match SourceMap.extract text with
    | .ok r => .ok r
    | .error (.encoding e) => .error ⟨[.decodeInlineMap], .base64 e⟩
    | .error (.map e) => .error ⟨[.readInlineMap], .sourceMap e⟩

/-- Loads a file unless it has been loaded since its last change. -/
def loadFile (root : Path) (d : Disk) (p : Path) : Action LoadMemory SourceFile := do
  let modified := d.modified? p
  match (← get).find? (·.path == p) with
  | some l => if modified.isSome ∧ l.modified = modified then return l.file else fresh modified
  | none => fresh modified
where
  /-- Loads a file and remembers it. -/
  fresh (modified : Option Nat) : Action LoadMemory SourceFile := do
    let file ← Action.lift (loadFresh root d p)
    modify fun m => ⟨p, modified, file⟩ :: m.filter (!·.path == p)
    return file

end ScriptBundler
