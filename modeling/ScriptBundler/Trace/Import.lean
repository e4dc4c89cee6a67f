import ScriptBundler.Trace.Basic
import ScriptBundler.Trace.Resolve

/-!
# Traces of imports

The files that a script needs are those to which its requests lead. Scripts are read once, and requests resolved once,
until they are forgotten.

* `ImportTracer.dependencies` are the files a file asks for itself;
* `ImportTracer.visit` walks depth first; a file is open from the time it is entered until it is listed, and an open
  file is not entered again;
* `ImportTracer.trace` walks from each of several paths with nothing listed.
-/

namespace ScriptBundler

/-- What has been read and resolved. -/
structure ImportMemory where
  requests : List (Path × List Script.Load) := []
  resolutions : Resolutions := []
  deriving Inhabited

/-- How imports are traced. -/
structure ImportTracer where
  resolver : Resolver
  /-- Whether files that are loaded only when a script asks are followed. -/
  followsLazy : Bool := true
  deriving Inhabited, Repr

/-- The requests of a script that have been read. -/
def ImportMemory.requests? (m : ImportMemory) (p : Path) : Option (List Script.Load) :=
  (m.requests.find? (·.1 == p)).map (·.2)

/-- Forgets the requests of a file. -/
def ImportMemory.forget (m : ImportMemory) (p : Path) : ImportMemory :=
  { m with requests := m.requests.filter (!·.1 == p) }

/-- The requests of a script on a disk, read once. -/
def importsFor (d : Disk) (p : Path) : Action ImportMemory (List Script.Load) := do
  match (← get).requests? p with
  | some loads => return loads
  | none =>
    let text ← Action.lift ((Attempted.of .disk (d.readText p)).during (.readFile p))
    let loads ← Action.lift (requestsOf p text)
    modify fun m => { m with requests := (p, loads) :: m.requests }
    return loads

namespace ImportTracer

/-- Resolves a request and remembers what was found. -/
def resolve (t : ImportTracer) (d : Disk) (p : Path) (request : String) : StateM ImportMemory (Option Path) :=
  fun m =>
    let (found, resolutions) := t.resolver.resolve d p request m.resolutions
    (found, { m with resolutions })

/-- Adds the files to which requests lead, each once. -/
def resolveAll (t : ImportTracer) (d : Disk) (p : Path) (found : List Path) :
    List Script.Load → StateM ImportMemory (List Path)
  | [] => return found
  | load :: loads => do
    if load.kind = .lazy ∧ ¬ t.followsLazy then resolveAll t d p found loads
    else match ← t.resolve d p load.request with
      | none => resolveAll t d p found loads
      | some q => resolveAll t d p (if found.any (· == q) then found else found ++ [q]) loads

/-- The files that a file asks for itself. -/
def dependencies (t : ImportTracer) (d : Disk) (p : Path) : Action ImportMemory (List Path) := do
  if p.isScript then
    let loads ← importsFor d p
    ExceptT.lift (t.resolveAll d p [] loads)
  else return []

/-- The open files, the listed files, and the list. -/
structure Walk where
  opened : List Path := []
  done : List Path := []
  files : List TracedFile := []

/-- Visits a file: all it needs first. The number bounds the depth. -/
def visit (t : ImportTracer) (d : Disk) : Nat → Walk → Path → Action ImportMemory Walk
  | 0, w, _ => return w
  | fuel + 1, w, p => do
    if w.done.any (· == p) ∨ w.opened.any (· == p) then return w
    else
      let deps ← t.dependencies d p
      let w ← deps.foldlM (visit t d fuel) { w with opened := p :: w.opened }
      return ⟨w.opened.filter (!· == p), p :: w.done, w.files ++ [⟨p, deps⟩]⟩

/-- The trace of one path. An open file other than the first is a file of the disk or was found earlier. -/
def traceOne (t : ImportTracer) (d : Disk) (p : Path) : Action ImportMemory (List TracedFile) := do
  let m ← get
  return (← t.visit d (d.nodes.length + m.resolutions.length + 2) {} p).files

/-- The traces of paths, one after the other. -/
def trace (t : ImportTracer) (d : Disk) (ps : List Path) : Action ImportMemory (List TracedFile) :=
  return (← ps.mapM (t.traceOne d)).flatten

/-- Forgets what is known of a file that has changed, and all resolutions. -/
def invalidate (p : Path) (m : ImportMemory) : ImportMemory := { m.forget p with resolutions := [] }

end ImportTracer

end ScriptBundler
