import ScriptBundler.Failure
import ScriptBundler.Path.Set
import ScriptBundler.Trace.Basic

/-!
# Traces of a given graph

An import graph held in memory, with its traces.

* `Graph.visit` walks depth first; a path is marked as seen when it is entered and listed when it is left;
* `Graph.trace` walks from each of several paths with nothing marked. Some paths may be set to fail, and some to have
  a trace that does not come from the graph.
-/

namespace ScriptBundler

/-- Lists of paths, each under the steps of a path. -/
abbrev PathTable := List (List Path.Component × List Path)

/-- An import graph. -/
structure Graph where
  /-- The dependencies of each path; a path without a row has none. -/
  rows : PathTable := []
  /-- Traces that take the place of walks. -/
  fixed : PathTable := []
  /-- Paths that cannot be traced. -/
  failing : List Path := []
  deriving Inhabited

namespace PathTable

def get? (t : PathTable) (p : Path) : Option (List Path) := t.lookup p.components

/-- Sets the row of a path. -/
def set (t : PathTable) (p : Path) (row : List Path) : PathTable :=
  let steps := p.components
  match t.lookup steps with
  | some _ => t.map fun r => if r.1 = steps then (steps, row) else r
  | none => t ++ [(steps, row)]

end PathTable

namespace Graph

def dependencies (g : Graph) (p : Path) : List Path := (g.rows.get? p).getD []

/-- The paths seen so far and the files listed so far. -/
structure Walk where
  seen : PathSet := .empty
  files : List TracedFile := []

/-- Visits a path: all it needs first. The number bounds the depth; there are as many paths with dependencies as
rows. -/
def visit (g : Graph) : Nat → Walk → Path → Walk
  | 0, w, _ => w
  | fuel + 1, w, p =>
    if w.seen.contains p then w
    else
      let deps := g.dependencies p
      let w := deps.foldl (visit g fuel) { w with seen := w.seen.insert p }
      { w with files := w.files ++ [⟨p, deps⟩] }

/-- The trace of one path. -/
def walk (g : Graph) (p : Path) : List TracedFile := (g.visit (g.rows.length + 1) {} p).files

/-- The trace of one path, unless it is set to fail. -/
def traceOne (g : Graph) (p : Path) : Attempted (List TracedFile) :=
  if g.failing.any (· == p) then .error ⟨[], .untraceable p⟩
  else match g.fixed.get? p with
    | some row => .ok (row.map fun q => ⟨q, []⟩)
    | none => .ok (g.walk p)

/-- The traces of paths, one after the other. -/
def trace (g : Graph) (ps : List Path) : Attempted (List TracedFile) := return (← ps.mapM g.traceOne).flatten

end Graph

end ScriptBundler
