/-!
# File paths

A path is kept as it was spelled, and compared by its components: slashes that repeat or stand at the end count
once, and a dot counts only in front of a relative path.

* `components` is the view on which every comparison rests, `p == q` exactly when the components agree
  (`beq_iff`);
* `join`, `parent?`, `stripPrefix?` and `fileName?` keep the spelling of the pieces they do not touch;
* `ancestors` climbs by `parent?`.
-/

namespace ScriptBundler

/-- A file path as it was spelled. -/
structure Path where
  /-- The spelling. -/
  text : String
  deriving Inhabited, Repr

namespace Path

/-- One step of a path. -/
inductive Component where
  /-- The leading slash. -/
  | root
  /-- A leading dot. -/
  | here
  /-- Two dots. -/
  | up
  /-- A name in the directory reached so far. -/
  | normal (name : String)
  deriving DecidableEq, Inhabited, Repr

/-- The pieces of a text between its slashes; a text without slashes is its own only piece. -/
def pieces : List Char → List (List Char)
  | [] => [[]]
  | c :: cs =>
    if c = '/' then [] :: pieces cs
    else match pieces cs with
      | [] => [[c]]
      | p :: ps => (c :: p) :: ps

/-- The text whose pieces are given. -/
def joinPieces : List (List Char) → List Char
  | [] => []
  | [p] => p
  | p :: q :: ps => p ++ '/' :: joinPieces (q :: ps)

/-- Pieces that name no step when they do not stand in front: nothing, and a dot. -/
def blank (piece : List Char) : Bool := piece.isEmpty || piece == ['.']

/-- A path taken apart: an absolute path has no first piece of its own. -/
def split (p : Path) : Option (List Char) × List (List Char) :=
  match p.text.toList with
  | '/' :: cs => (none, pieces cs)
  | cs => match pieces cs with
    | [] => (some [], [])
    | first :: rest => (some first, rest)

/-- Inverse of `split`. -/
def unsplit : Option (List Char) × List (List Char) → Path
  | (none, rest) => ⟨String.ofList ('/' :: joinPieces rest)⟩
  | (some first, rest) => ⟨String.ofList (joinPieces (first :: rest))⟩

/-- The step a piece stands for. -/
def component (piece : List Char) : Component :=
  if piece = ['.'] then .here else if piece = ['.', '.'] then .up else .normal (String.ofList piece)

/-- The steps of a path. -/
def components (p : Path) : List Component :=
  let (first, rest) := p.split
  let head := match first with
    | none => [Component.root]
    | some [] => []
    | some piece => [component piece]
  head ++ (rest.filter (!blank ·)).map component

instance : BEq Path := ⟨fun p q => p.components == q.components⟩

theorem beq_iff {p q : Path} : (p == q) = true ↔ p.components = q.components := by
  show (p.components == q.components) = true ↔ _
  simp

instance : EquivBEq Path where
  rfl := beq_iff.2 rfl
  symm h := beq_iff.2 (beq_iff.1 h).symm
  trans h k := beq_iff.2 ((beq_iff.1 h).trans (beq_iff.1 k))

/-- The path that stands for the given steps. -/
def ofComponents : List Component → Path
  | cs => ⟨String.ofList (go cs)⟩
where
  word : Component → List Char
    | .root => ['/']
    | .here => ['.']
    | .up => ['.', '.']
    | .normal name => name.toList
  go : List Component → List Char
    | [] => []
    | .root :: cs => '/' :: joinPieces (cs.map word)
    | cs => joinPieces (cs.map word)

def isAbsolute (p : Path) : Bool := p.text.toList.head? == some '/'

/-- The path `q` read from the directory `p`; an absolute `q` stands for itself. -/
def join (p q : Path) : Path :=
  if q.isAbsolute then q
  else match p.text.toList.getLast? with
    | none => q
    | some '/' => ⟨p.text ++ q.text⟩
    | some _ => ⟨p.text ++ "/" ++ q.text⟩

/-- Drops the pieces at the end that name no step. -/
def trimEnd (pieces : List (List Char)) : List (List Char) := (pieces.reverse.dropWhile blank).reverse

/-- The path without its last step; the root and the empty path have none. -/
def parent? (p : Path) : Option Path :=
  let (first, rest) := p.split
  match first, trimEnd rest with
  | none, [] => none
  | some [], [] => none
  | some _, [] => some ⟨""⟩
  | first, kept => some (unsplit (first, trimEnd kept.dropLast))

/-- The path, its parent, the parent of that, and so on. -/
def ancestors (p : Path) : List Path := climb p.components.length p
where
  climb : Nat → Path → List Path
    | 0, p => [p]
    | n + 1, p => p :: match p.parent? with
      | none => []
      | some q => climb n q

/-- The last step, if it is a name. -/
def fileName? (p : Path) : Option String :=
  match p.components.getLast? with
  | some (.normal name) => some name
  | _ => none

/-- What stands behind the last dot of the file name; a dot in front of the name does not count. -/
def extension? (p : Path) : Option String := do
  let name ← p.fileName?
  let (after, rest) := name.toList.reverse.span (· ≠ '.')
  match rest with
  | _ :: _ :: _ => some (String.ofList after.reverse)
  | _ => none

/-- Passes over the first `n` pieces that name a step, and over the blank pieces around them. -/
def dropSteps : Nat → List (List Char) → List (List Char)
  | 0, ps => ps.dropWhile blank
  | n + 1, ps => match ps.dropWhile blank with
    | [] => []
    | _ :: rest => dropSteps n rest

/-- The spelling of `p` below `base`, if the steps of `base` are the first steps of `p`. -/
def stripPrefix? (p base : Path) : Option Path :=
  let (first, rest) := p.split
  let rest := trimEnd rest
  if base.components.isPrefixOf p.components then
    match base.components.length with
    | 0 => some (unsplit (first, rest))
    | n + 1 => some ⟨String.ofList (joinPieces (dropSteps n rest))⟩
  else none

/-- Root, dot, two dots and names stand in this order. -/
def Component.rank : Component → Nat
  | .root => 0
  | .here => 1
  | .up => 2
  | .normal _ => 3

/-- Steps are ordered by rank, names among themselves by code point. -/
def Component.lt : Component → Component → Bool
  | .normal a, .normal b => a < b
  | a, b => a.rank < b.rank

/-- Paths are ordered as lists of steps. -/
def le (p q : Path) : Bool := !List.lex q.components p.components Component.lt

/-- One step of `clean`: dots vanish, two dots take a name back and stay at the root. -/
def cleanStep (done : List Component) : Component → List Component
  | .here => done
  | .up => match done.getLast? with
    | some .root => done
    | some (.normal _) => done.dropLast
    | _ => done ++ [.up]
  | step => done ++ [step]

/-- The path without dots and, as far as the text alone tells, without two dots; a dot if nothing is left. -/
def clean (p : Path) : Path :=
  match p.components.foldl cleanStep [] with
  | [] => ⟨"."⟩
  | steps => ofComponents steps

end Path

end ScriptBundler
