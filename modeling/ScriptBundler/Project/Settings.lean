import ScriptBundler.Project.Alias
import ScriptBundler.Project.Entry
import ScriptBundler.Project.Root
import ScriptBundler.Workspace

/-!
# Settings of a project

Settings say which entries a bundle has and with what options. They take effect once `settle` has found the root and
the aliases of the project.

* `bundleOptions`: what the settings say goes before the option file, and this before the defaults;
* `entryPatterns`: the patterns given, seen from the root, or one pattern for each entry that is collected;
* `bundle` puts these together.
-/

namespace ScriptBundler

structure Settings where
  /-- Patterns of entries, seen from the root. -/
  patterns : List String := []
  root : Option Path := none
  /-- The pattern of the entries collected if no patterns are given. -/
  entryGlob : String := defaultEntryGlob
  common : Option CommonOption := none
  joiner : Option String := none
  optionFile : Option Path := none
  aliases : AliasTable := []
  deriving Inhabited

namespace Settings

/-- The root that was named, without links if it is there; else that of the repository. -/
def findRoot (s : Settings) (d : Disk) : Attempted Path :=
  match s.root with
  | some root => .ok (canonical d root)
  | none => do
    let root ← repositoryRoot d (Disk.pathOf d.workingDirectory)
    Attempted.of .disk ((d.locate root).map Disk.pathOf)

/-- Finds the root and the aliases. -/
def settle (s : Settings) (d : Disk) : Attempted Settings := do
  let root ← s.findRoot d
  return { s with root := some root, aliases := projectAliases d root }

def knownRoot (s : Settings) : Attempted Path :=
  match s.root with
  | some root => .ok root
  | none => .error ⟨[], .notInitialized⟩

/-- The option with its pattern seen from the root. -/
def anchored (root : Path) : CommonOption → CommonOption
  | .pattern text => .pattern (root.join ⟨text⟩).text
  | o => o

/-- The options of the bundle. -/
def bundleOptions (s : Settings) (d : Disk) : Attempted Options := do
  let root ← s.knownRoot
  let options ← match s.optionFile.or (optionFile? d root) with
    | some p => Options.read d p
    | none => .ok {}
  return { common := anchored root (s.common.getD options.common), joiner := s.joiner.getD options.joiner }

/-- The patterns of the entries of the bundle. -/
def entryPatterns (s : Settings) (d : Disk) : Attempted (List String) := do
  let root ← s.knownRoot
  if s.patterns.isEmpty then
    match ← collectEntries d root s.entryGlob with
    | [] => .error ⟨[], .noEntries root⟩
    | entries => return entries.map fun p => Glob.escape p.text
  else return s.patterns.map fun p => (root.join ⟨p⟩).text

/-- The bundle of the project. -/
def bundle (s : Settings) : Action Workspace Bundle := do
  let d := (← get).disk
  let root ← Action.lift s.knownRoot
  let patterns ← Action.lift (s.entryPatterns d)
  let options ← Action.lift (s.bundleOptions d)
  Bundle.of (Workspace.collaborators root s.aliases) patterns options

end Settings

end ScriptBundler
