import ScriptBundler.Destination
import ScriptBundler.Glob.Expand
import ScriptBundler.SourceMap.Builder

/-!
# Bundles

A bundle is a list of entries with the partition of the files they need. All it knows of the world comes from its
`Collaborators`, which change a world of type `σ`: a tracer, a loader, a check for existing paths, a disk on which
patterns are expanded, a receiver of events and, perhaps, a watcher.

* `Bundle.of` expands patterns into entries; `refresh` finds the partition and the destination anew, and gives no
  bundle at all when a trace fails.
-/

namespace ScriptBundler

/-- The code of a file and its map. -/
structure SourceFile where
  code : String
  map : SourceMap
  deriving DecidableEq, Inhabited, Repr

/-- Tells that a file was put into an output. -/
structure Event where
  path : Path
  index : Nat
  /-- All files of the output. -/
  traced : List Path
  /-- The entries of the output. -/
  bundled : List Path
  deriving Inhabited, Repr

/-- The line that logs an event. -/
def Event.line (e : Event) : String :=
  "compile: " ++ e.path.text ++ " (" ++ toString (e.index + 1) ++ "/" ++ toString e.traced.length ++ ") for " ++
    toString e.bundled.length ++ " bundled entries"

/-- What becomes of the files of a stream. -/
inductive FileStream where
  /-- Each file becomes the output of its path. -/
  | compile
  /-- Each file becomes its own code. -/
  | compileOne
  /-- Files pass as they are. -/
  | pass
  deriving DecidableEq, Inhabited, Repr

/-- The files that entries need, and where they go. -/
structure Bundle where
  options : Options
  /-- The entries in the order in which they were found. -/
  files : List Path
  partition : Partition := {}
  /-- The files of the partition, each once. -/
  traced : PathSet := .empty
  /-- Where files taken out go. -/
  destination : Option Path := none
  deriving Inhabited

/-- What a bundle asks of a world. -/
structure Collaborators (σ : Type) where
  trace : List Path → Action σ (List TracedFile)
  load : Path → Action σ SourceFile
  isThere : σ → Path → Bool
  disk : σ → Disk
  emit : Event → σ → σ
  /-- Calls back for entries as they change. -/
  watch : Bundle → (Path → Action σ Unit) → Action σ FileStream := fun _ _ => Action.fail .noWatcher

namespace Bundle

variable {σ : Type}

/-- Whether a path is an entry. -/
def isEntry (b : Bundle) (p : Path) : Bool := b.files.any (· == p)

/-- Finds the partition and the destination anew. -/
def refresh (c : Collaborators σ) (b : Bundle) : Action σ Bundle := do
  let partition ← Partition.of c.trace b.files b.options.common
  let world ← get
  return { b with
    partition
    traced := .ofList partition.all
    destination := commonDestination? b.files b.options.common (c.isThere world) }

/-- The paths that patterns stand for. -/
def expand (c : Collaborators σ) (patterns : List String) : Action σ (List Path) := do
  match Glob.expand (c.disk (← get)) patterns with
  | .ok found => return found.toList
  | .error (pattern, e) => (Action.fail (.glob e)).during (.expandPattern pattern)

/-- The bundle of the entries that patterns stand for. -/
def of (c : Collaborators σ) (patterns : List String) (options : Options) : Action σ Bundle := do
  refresh c { options, files := ← expand c patterns }

/-- Where the output that holds a file goes. -/
def destinations (c : Collaborators σ) (b : Bundle) (p : Path) : Action σ (List Path) :=
  destinationsOf c.trace p b.files b.partition.common b.destination

end Bundle

end ScriptBundler
