import ScriptBundler.Disk.Basic
import ScriptBundler.Path.Set
import ScriptBundler.Glob.Match

/-!
# Paths that match a pattern

The pieces of a pattern are matched one directory at a time.

* `paths` lists what a pattern finds on a disk: within a directory the special names first, then the entries in the
  order of their names, and a directory in front of what lies below it;
* a piece without pattern syntax is looked up and need not be a visible name; one with pattern syntax is compared
  with the entries of a directory.

The walk is bounded: each of its steps makes the path longer or goes on to the next piece, and a disk knows no path
longer than `longest`.
-/

namespace ScriptBundler.Glob

/-- A piece of a pattern. -/
structure Piece where
  tokens : List Token
  deriving DecidableEq, Inhabited

/-- Whether the piece stands for any number of directories. -/
def Piece.isRecursive (p : Piece) : Bool := p.tokens.contains .anyDirectories

/-- The text of a piece without pattern syntax. -/
def Piece.literal? (p : Piece) : Option String :=
  (p.tokens.mapM character?).map String.ofList
where
  character? : Token → Option Char
    | .char c => some c
    | _ => none

/-- Whether a name fits the piece. -/
def Piece.accepts (p : Piece) (name : String) : Bool := matchAll false p.tokens name

/-- The most bytes a path can have. -/
def longest : Nat := 4096

/-- A search: the disk, and whether only directories are wanted. -/
structure Search where
  disk : Disk
  directoriesOnly : Bool

/-- The entry `name` of the directory `path`; below the dot it goes by its name alone. -/
def entry (path : Path) (name : String) : Path := if path == ⟨"."⟩ then ⟨name⟩ else path.join ⟨name⟩

/-- What is found under a special or literal name once the last piece has matched it. -/
def Search.found (s : Search) (path : Path) : List Path :=
  if s.directoriesOnly ∧ ¬ s.disk.isDirectory path then [] else [path]

mutual

/-- What the pieces find below a path. -/
def Search.below (s : Search) : Nat → List Piece → Path → List Path
  | 0, _, _ => []
  | _ + 1, [], _ => []
  | fuel + 1, piece :: pieces, path =>
    match piece.literal? with
    | some name =>
      let next := entry path name
      if (if name = "." ∨ name = ".." then s.disk.isDirectory path else s.disk.isNamed next) then
        s.onward fuel pieces next
      else []
    | none =>
      match s.disk.isDirectory path, s.disk.list path with
      | true, .ok names =>
        let special := if piece.tokens.head? = some (.char '.') then ["..", "."].filter piece.accepts else []
        special.flatMap (fun name => s.onward fuel pieces (path.join ⟨name⟩)) ++
          (names.mergeSort (fun a b => a ≤ b)).flatMap
            fun name => s.visit fuel (piece :: pieces) (entry path name) name
      | _, _ => []

/-- Goes on behind a name that has already matched. -/
def Search.onward (s : Search) : Nat → List Piece → Path → List Path
  | _, [], path => s.found path
  | 0, _, _ => []
  | fuel + 1, pieces, path => s.below fuel pieces path

/-- Compares an entry with the pieces. -/
def Search.visit (s : Search) : Nat → List Piece → Path → String → List Path
  | 0, _, _, _ => []
  | fuel + 1, pieces, path, name =>
    match pieces.span Piece.isRecursive with
    | ([], pieces) => s.compare fuel pieces path name
    | (r :: rs, pieces) =>
      let last := (r :: rs).getLast (by simp)
      if s.disk.isDirectory path then
        (if pieces.isEmpty then [path] else s.compare fuel pieces path name) ++ s.below fuel (last :: pieces) path
      else if pieces.isEmpty then [] else s.compare fuel pieces path name

/-- Compares an entry with the first of the pieces. -/
def Search.compare (s : Search) : Nat → List Piece → Path → String → List Path
  | 0, _, _, _ => []
  | _, [], _, _ => []
  | fuel + 1, piece :: pieces, path, name =>
    if piece.accepts name then
      if pieces.isEmpty then s.found path else s.below fuel pieces path
    else []

end

/-- The pieces of a pattern between its slashes, without the empty one behind a slash at the end. -/
def pieceTexts (text : String) : List String :=
  let ps := (Path.pieces text.toList).map String.ofList
  if ps.getLast? = some "" then ps.dropLast else ps

/-- The paths that a pattern finds. Faults are looked for in the whole pattern first, then in each piece. -/
def paths (disk : Disk) (pattern : String) : Except PatternError (List Path) := do
  let _ ← parse pattern
  let absolute := (⟨pattern⟩ : Path).isAbsolute
  let texts := pieceTexts (if absolute then String.ofList (pattern.toList.drop 1) else pattern)
  let pieces ← texts.mapM fun t => return (⟨← parse t⟩ : Piece)
  let start : Path := if absolute then ⟨"/"⟩ else ⟨"."⟩
  let search : Search := ⟨disk, pattern.toList.getLast? = some '/'⟩
  return search.below (4 * (longest + pieces.length)) pieces start

/-- The paths one pattern stands for: itself if it has no pattern syntax, if something has that name, or if it finds
nothing. -/
def expandOne (disk : Disk) (pattern : String) : Except PatternError (List Path) :=
  if ¬ hasMagic pattern ∨ disk.exists ⟨pattern⟩ then .ok [⟨pattern⟩]
  else match paths disk pattern with
    | .error e => .error e
    | .ok [] => .ok [⟨pattern⟩]
    | .ok ps => .ok ps

/-- The paths a list of patterns stands for, each at its first place. The first faulty pattern is named. -/
def expand (disk : Disk) (patterns : List String) : Except (String × PatternError) PathSet :=
  patterns.foldlM (fun found pattern =>
    match expandOne disk pattern with
    | .error e => .error (pattern, e)
    | .ok ps => .ok (found.insertAll ps)) .empty

end ScriptBundler.Glob
