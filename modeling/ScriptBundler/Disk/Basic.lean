import ScriptBundler.Path.Basic

/-!
# Disks

A disk is a value: the nodes at each location below the root, the directory from which relative paths are read, and
a clock for the next change. A path leads to a location by the walk `descend`, which follows links and gives up after
forty of them.

* `locate` is where a path leads, `node?` what stands there;
* the questions `exists`, `isFile`, `isDirectory`, `readText`, `modified?` and `canonical?` are answered from these
  two alone;
* the changes `write`, `makeDirectory`, `makeDirectories` and `remove` answer with the new disk.
-/

namespace ScriptBundler

/-- Why a disk refuses. -/
inductive DiskError where
  | notFound
  | notADirectory
  | isADirectory
  | alreadyExists
  /-- More than forty links stand between a path and its location. -/
  | tooManyLinks
  /-- A name is longer than 255 bytes or a path longer than 4095. -/
  | nameTooLong
  /-- A file that is read as text holds something else. -/
  | notText
  /-- A path holds the character zero. -/
  | invalidPath
  deriving DecidableEq, Inhabited, Repr

/-- The names that lead from the root to a node. -/
abbrev Location := List String

local instance decEqContent : DecidableEq ByteArray := ByteArray.instDecidableEq

/-- What stands at a location. -/
inductive Node where
  | file (content : ByteArray) (modified : Nat)
  | directory (modified : Nat)
  | link (target : String)
  deriving DecidableEq, Inhabited

/-- The files, directories and links of a machine. -/
structure Disk where
  /-- Where relative paths start. -/
  workingDirectory : Location
  /-- The nodes below the root. -/
  nodes : List (Location × Node)
  /-- The time of the next change. -/
  clock : Nat := 0
  deriving Inhabited

namespace Disk

/-- The node at a location; the root is a directory that is always there. -/
def node? (d : Disk) : Location → Option Node
  | [] => some (.directory 0)
  | location => d.nodes.lookup location

/-- How a walk treats its last name. -/
structure Arrival where
  /-- A link in the last place is followed. -/
  follow : Bool := true
  /-- The last name may be new. -/
  fresh : Bool := false

/-- The names of a path in the order of the walk. -/
def names (text : String) : List String := (Path.pieces text.toList).map String.ofList

/-- Walks from a location along names. The walk goes on by `again` when it meets a link. -/
def descend (d : Disk) (arrival : Arrival) (again : Location → List String → Except DiskError Location) :
    Location → List String → Except DiskError Location
  | here, [] => .ok here
  | here, name :: rest =>
    if name = "" ∨ name = "." then descend d arrival again here rest
    else if name = ".." then descend d arrival again here.dropLast rest
    else if name.utf8ByteSize > 255 then .error .nameTooLong
    else match d.node? (here ++ [name]) with
      | none => if arrival.fresh ∧ rest = [] then .ok (here ++ [name]) else .error .notFound
      | some (.file ..) => if rest = [] then .ok (here ++ [name]) else .error .notADirectory
      | some (.directory _) => descend d arrival again (here ++ [name]) rest
      | some (.link target) =>
        if rest = [] ∧ ¬ arrival.follow then .ok (here ++ [name])
        else if (⟨target⟩ : Path).isAbsolute then again [] (names target ++ rest)
        else again here (names target ++ rest)

/-- A walk that may meet the given number of links. -/
def walk (d : Disk) (arrival : Arrival) : Nat → Location → List String → Except DiskError Location
  | 0 => d.descend arrival fun _ _ => .error .tooManyLinks
  | n + 1 => d.descend arrival (d.walk arrival n)

/-- Where a path leads. -/
def locate (d : Disk) (p : Path) (arrival : Arrival := {}) : Except DiskError Location :=
  if p.text.toList.contains '\x00' then .error .invalidPath
  else if p.text = "" then .error .notFound
  else if p.text.utf8ByteSize > 4095 then .error .nameTooLong
  else d.walk arrival 40 (if p.isAbsolute then [] else d.workingDirectory) (names p.text)

/-- The node to which a path leads. -/
def stat (d : Disk) (p : Path) (arrival : Arrival := {}) : Except DiskError Node := do
  let location ← d.locate p arrival
  match d.node? location with
  | some node => .ok node
  | none => .error .notFound

def «exists» (d : Disk) (p : Path) : Bool := (d.stat p).toBool

/-- Whether something has this name, a link that leads nowhere included. -/
def isNamed (d : Disk) (p : Path) : Bool := (d.stat p ⟨false, false⟩).toBool

def isFile (d : Disk) (p : Path) : Bool :=
  match d.stat p with
  | .ok (.file ..) => true
  | _ => false

def isDirectory (d : Disk) (p : Path) : Bool :=
  match d.stat p with
  | .ok (.directory _) => true
  | _ => false

/-- The bytes of a file. -/
def readBytes (d : Disk) (p : Path) : Except DiskError ByteArray := do
  match ← d.stat p with
  | .file content _ => .ok content
  | .directory _ => .error .isADirectory
  | .link _ => .error .notFound

/-- The text of a file. -/
def readText (d : Disk) (p : Path) : Except DiskError String := do
  match String.fromUTF8? (← d.readBytes p) with
  | some text => .ok text
  | none => .error .notText

/-- When the node to which a path leads was last changed. -/
def modified? (d : Disk) (p : Path) : Option Nat :=
  match d.stat p with
  | .ok (.file _ time) => some time
  | .ok (.directory time) => some time
  | _ => none

/-- The absolute path of a location. -/
def pathOf (location : Location) : Path := ⟨"/" ++ String.intercalate "/" location⟩

/-- The absolute path without links of what a path leads to. -/
def canonical? (d : Disk) (p : Path) : Option Path :=
  match d.locate p with
  | .ok location => some (pathOf location)
  | .error _ => none

/-- The names in the directory at a location. -/
def namesIn (d : Disk) (location : Location) : List String :=
  d.nodes.filterMap fun (l, _) => match l.getLast? with
    | some name => if l.dropLast = location then some name else none
    | none => none

/-- The names in the directory to which a path leads. -/
def list (d : Disk) (p : Path) : Except DiskError (List String) := do
  let location ← d.locate p
  match d.node? location with
  | some (.directory _) => .ok (d.namesIn location)
  | _ => .error .notADirectory

/-- Puts a node at a location, in the place of the one that stands there. -/
def put (d : Disk) (location : Location) (node : Node) : Disk :=
  if d.nodes.any (·.1 = location) then
    { d with nodes := d.nodes.map fun (l, n) => if l = location then (l, node) else (l, n) }
  else { d with nodes := d.nodes ++ [(location, node)] }

/-- The disk one moment later. -/
def tick (d : Disk) : Disk := { d with clock := d.clock + 1 }

/-- Gives a file new content, creating it in an existing directory if need be. -/
def write (d : Disk) (p : Path) (content : ByteArray) : Except DiskError Disk := do
  if p.text.toList.getLast? = some '/' then
    match d.stat p with
    | .error .notFound => .error .isADirectory
    | .error e => .error e
    | .ok _ => .error .isADirectory
  else
    let location ← d.locate p ⟨true, true⟩
    match d.node? location with
    | some (.directory _) => .error .isADirectory
    | _ => .ok ((d.put location (.file content d.clock)).tick)

/-- The path without the slashes at its end. -/
def withoutFinalSlashes (p : Path) : Path :=
  match (p.text.toList.reverse.dropWhile (· = '/')).reverse with
  | [] => p
  | cs => ⟨String.ofList cs⟩

/-- Creates a directory in an existing one. -/
def makeDirectory (d : Disk) (p : Path) : Except DiskError Disk := do
  let location ← d.locate (withoutFinalSlashes p) ⟨false, true⟩
  match d.node? location with
  | some _ => .error .alreadyExists
  | none => .ok ((d.put location (.directory d.clock)).tick)

/-- Creates a directory and the directories above it that are missing. -/
def makeDirectories (d : Disk) (p : Path) : Except DiskError Disk := climb p.components.length d p
where
  settle (d : Disk) (p : Path) : Except DiskError Disk :=
    match d.makeDirectory p with
    | .ok d => .ok d
    | .error e => if d.isDirectory p then .ok d else .error e
  climb : Nat → Disk → Path → Except DiskError Disk
    | n, d, p =>
      if p.text = "" then .ok d
      else match d.makeDirectory p with
        | .ok d => .ok d
        | .error .notFound => match n, p.parent? with
          | n + 1, some parent => do settle (← climb n d parent) p
          | _, _ => .error .notFound
        | .error e => if d.isDirectory p then .ok d else .error e

/-- Removes what has this name, a directory with all it holds. -/
def remove (d : Disk) (p : Path) : Disk :=
  match d.locate (withoutFinalSlashes p) ⟨false, false⟩ with
  | .ok location =>
    if location = [] then d else { d with nodes := d.nodes.filter fun (l, _) => ¬ location.isPrefixOf l }
  | .error _ => d

/-- Puts a node where a path leads, creating the directories above it. A file is written through links. -/
def place (d : Disk) (p : Path) (node : Node) : Except DiskError Disk := do
  let d ← match p.parent? with
    | some parent => d.makeDirectories parent
    | none => .ok d
  match node with
  | .directory _ => d.makeDirectories p
  | .file .. => return d.put (← d.locate p ⟨true, true⟩) node
  | .link _ => return d.put (← d.locate p ⟨false, true⟩) node

end Disk

end ScriptBundler
