import ScriptBundler.Trace.Import
import ScriptBundler.Trace.Load

/-!
# Workspaces

A disk with all that has been remembered of it, and the collaborators of a bundle that work on it: imports are traced,
files are loaded from the disk, and events are logged.
-/

namespace ScriptBundler

/-- A disk, what is remembered of it, and the lines logged so far, the last one first. -/
structure Workspace where
  disk : Disk
  imports : ImportMemory := {}
  loads : LoadMemory := []
  log : List String := []
  deriving Inhabited

namespace Workspace

/-- An action on what is remembered of imports. -/
def onImports {α : Type} (x : Disk → Action ImportMemory α) : Action Workspace α := fun w =>
  let (r, imports) := x w.disk w.imports
  (r, { w with imports })

/-- An action on what is remembered of files. -/
def onLoads {α : Type} (x : Disk → Action LoadMemory α) : Action Workspace α := fun w =>
  let (r, loads) := x w.disk w.loads
  (r, { w with loads })

/-- An action on the disk. -/
def onDisk {α : Type} (x : Action Disk α) : Action Workspace α := fun w =>
  let (r, disk) := x w.disk
  (r, { w with disk })

/-- The collaborators of a bundle in a project. -/
def collaborators (root : Path) (aliases : AliasTable) : Collaborators Workspace where
  trace ps := onImports fun d => (⟨.of root aliases, true⟩ : ImportTracer).trace d ps
  load p := onLoads fun d => loadFile root d p
  isThere w p := w.disk.exists p
  disk w := w.disk
  emit e w := { w with log := e.line :: w.log }

end Workspace

end ScriptBundler
