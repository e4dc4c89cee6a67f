import ScriptBundler.Build
import ScriptBundler.Command.Basic

/-!
# Running commands

A command works on a workspace and answers with what is printed, in which the time it took is filled in at the end. A
build goes on in one thread.
-/

namespace ScriptBundler.Command

/-- What is printed, given how many milliseconds it took. -/
abbrev Printed := Nat → String

/-- The settings with the root and the aliases of the project. -/
def settled (s : Settings) : Action Workspace Settings := do Action.lift (s.settle (← get).disk)

/-- Writes the outputs of a project. -/
def runBuild (style : Style) (settings : Settings) (out : Path) : Action Workspace Printed := do
  let s ← settled settings
  let root ← Action.lift s.knownRoot
  let b ← s.bundle
  let write (p : Path) (text : String) : Action Workspace Output := Workspace.onDisk (writeOutput p text)
  let outputs ← b.build (Workspace.collaborators root s.aliases) write root (root.join out)
  return fun time => style.buildReport outputs ++ "\n" ++ style.paint "94" "●" ++ " Finished in " ++
    style.paint "36" (toString time) ++ "ms on " ++ style.paint "36" (toString b.partition.all.length) ++
    " files (using " ++ style.paint "36" "1" ++ " threads).\n"

/-- Reports the partition of a project. -/
def runPartition (style : Style) (settings : Settings) : Action Workspace Printed := do
  let s ← settled settings
  let b ← s.bundle
  return fun time => style.partitionReport b ++ style.paint "94" "●" ++ " Traced " ++
    style.paint "36" (toString b.partition.all.length) ++ " files in " ++ style.paint "36" (toString time) ++ "ms.\n"

/-- The path of an existing file without links. -/
def resolved (d : Disk) (p : Path) : Attempted Path :=
  (Attempted.of .disk ((d.locate p).map Disk.pathOf)).during (.resolveFile p)

/-- Reports where a file goes. -/
def runDestinations (style : Style) (settings : Settings) (file : Path) : Action Workspace Printed := do
  let s ← settled settings
  let root ← Action.lift s.knownRoot
  let p ← Action.lift (resolved (← get).disk file)
  let b ← s.bundle
  let found ← b.destinations (Workspace.collaborators root s.aliases) p
  return fun _ => style.destinationReport p found

/-- Runs a command. -/
def run (style : Style) : Command → Action Workspace Printed
  | .build settings out => runBuild style settings out
  | .partition settings => runPartition style settings
  | .destinations settings file => runDestinations style settings file

end ScriptBundler.Command
