import ScriptBundler.Command.Arguments
import ScriptBundler.Project.Settings

/-!
# Commands

A command line names a command and its settings: a build, the report of a partition, or the report of where a file
goes. `Command.read` reads it.
-/

namespace ScriptBundler

/-- What a command line asks for. -/
inductive Command where
  | build (settings : Settings) (outDirectory : Path)
  | partition (settings : Settings)
  | destinations (settings : Settings) (file : Path)
  deriving Inhabited

namespace Command

def settings : Command → Settings
  | build s _ => s
  | partition s => s
  | destinations s _ => s

/-- The options of all commands. -/
def settingNames : List OptionName := [.root, .entryGlob, .common, .joiner, .config]

/-- The settings that arguments stand for. -/
def settingsOf (a : Arguments) : Settings where
  patterns := a.patterns
  root := (a.value? .root).map Path.mk
  entryGlob := (a.value? .entryGlob).getD defaultEntryGlob
  common := (a.value? .common).map CommonOption.ofArgument
  joiner := a.value? .joiner
  optionFile := (a.value? .config).map Path.mk

def readSettings (arguments : List String) : Except UsageFault Settings :=
  (readArguments settingNames arguments).map settingsOf

/-- The names of the commands. -/
def names : List String := ["build", "partition", "destinations"]

/-- Reads a command line. -/
def read : List String → Except UsageFault Command
  | "build" :: rest => do
    let a ← readArguments (.outDir :: settingNames) rest
    return .build (settingsOf a) ⟨(a.value? .outDir).getD "dist"⟩
  | "partition" :: rest => do return .partition (← readSettings rest)
  | "destinations" :: rest => do
    let a ← readArguments (.file :: settingNames) rest
    match a.value? .file with
    | some file => return .destinations (settingsOf a) ⟨file⟩
    | none => .error .missingArgument
  | "help" :: rest => if rest.all names.contains then .error .displayHelp else .error .unknownCommand
  | [] => .error .missingCommand
  | argument :: rest =>
    match Shape.of argument with
    | .terminator => if rest.isEmpty then .error .missingCommand else .error .unknownArgument
    | .long "help" none => .error .displayHelp
    | .long "help" (some _) => .error .tooManyValues
    | .long _ _ => .error .unknownArgument
    | .short 'h' => .error .displayHelp
    | .short _ => .error .unknownArgument
    | .plain => .error .unknownCommand

end Command

end ScriptBundler
